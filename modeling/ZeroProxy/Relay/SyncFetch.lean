import ZeroProxy.Machine.Run
import ZeroProxy.Store.Keyed
import ZeroProxy.Text.Basic

/-!
# The hub of synchronous requests

A synchronous request of a page is parked at the relay until the Service Worker of its origin, which
polls for such jobs, posts its result (`syncfetch.go`). Pages, pollers and posts are served
concurrently; the hub's table is guarded by a mutex, and queues and results go through channels.
-/

namespace ZeroProxy.Relay.SyncFetch

open Keyed Machine Text

variable {ρ : Type*}

/-- A job that a page parked: `n` tells jobs apart, as their addresses do. -/
structure Job where
  n : Nat
  id : Text
  host : Text

/-- A result that a worker of `host` posted for `id`. -/
structure Post (ρ : Type*) where
  id : Text
  host : Text
  result : ρ

/-- A poll of a worker of `host`: how many jobs it got, and whether it was answered. -/
structure Poller where
  host : Text
  got : Nat
  done : Bool

/-- `syncFetchQueueCap`. -/
def queueCap : Nat := 64

/-- `syncFetchPollBatch`. -/
def pollBatch : Nat := 16

/-- The hub, and where the handlers are. -/
structure Hub (ρ : Type*) where
  jobs : List Job
  /-- The queue of each host; an empty one stands for one that was not made yet. -/
  queues : Text → List Job
  closed : Bool
  /-- The number of the next job. -/
  next : Nat
  /-- Handlers of pages that wait for a result, and those that gave up but have not removed their
      job yet. -/
  waiting : List Job
  leaving : List Job
  pollers : List Poller
  /-- The jobs that each poller got. -/
  handed : List (Nat × Job)
  /-- Handlers of posts that took a job but have not sent the result yet. -/
  posting : List (Job × Post ρ)
  /-- The results in the channels of jobs. -/
  results : List (Job × Post ρ)
  /-- The results that pages got. -/
  delivered : List (Job × Post ρ)

namespace Hub

/-- `newSyncFetchHub`. -/
def new : Hub ρ where
  jobs := []
  queues _ := []
  closed := false
  next := 0
  waiting := []
  leaving := []
  pollers := []
  handed := []
  posting := []
  results := []
  delivered := []

/-! ## Under the mutex -/

/-- Why a job is not parked. -/
inductive EnqueueError
  | queueFull
  | duplicateJobID

def enqueue (h : Hub ρ) (j : Job) : Except EnqueueError (Hub ρ) :=
  if h.closed then .error .queueFull
  else if j.id ∈ h.jobs.map Job.id then .error .duplicateJobID
  else if queueCap ≤ h.jobs.length then .error .queueFull
  else if (h.queues j.host).length < queueCap then
    .ok { h with
      queues := fun host => if host = j.host then h.queues j.host ++ [j] else h.queues host
      jobs := h.jobs ++ [j] }
  else .error .queueFull

def take (h : Hub ρ) (id : Text) : Hub ρ := { h with jobs := erase Job.id id h.jobs }

def takeFor (h : Hub ρ) (id host : Text) : Option (Job × Hub ρ) :=
  match lookup Job.id id h.jobs with
  | some j => if j.host = host then some (j, h.take id) else none
  | none => none

end Hub

/-! ## Handlers -/

/-- What a handler does next: a page parks a job; its handler gets the result, or gives up (after a
    timeout, a disconnect or the close of the hub) and then removes its job; a poll begins, receives
    a job and is answered; a post takes its job and then sends the result; the hub is closed. -/
inductive Act (ρ : Type*)
  | request (id host : Text)
  | result (n : Nat)
  | leave (n : Nat)
  | take (n : Nat)
  | poll (host : Text)
  | receive (i : Nat)
  | respond (i : Nat)
  | post (p : Post ρ)
  | send (n : Nat)
  | close

namespace Hub

def jobOf (r : Job × Post ρ) : Nat := r.1.n

/-- The state after an action, if it is possible. -/
def step (h : Hub ρ) : Act ρ → Option (Hub ρ)
  | .request id host =>
    let j : Job := ⟨h.next, id, host⟩
    match h.enqueue j with
    | .ok h' => some { h' with next := h.next + 1, waiting := h.waiting ++ [j] }
    | .error _ => some { h with next := h.next + 1 }
  | .result n =>
    match lookup Job.n n h.waiting, lookup jobOf n h.results with
    | some _, some r => some { h with
        waiting := erase Job.n n h.waiting
        results := erase jobOf n h.results
        delivered := h.delivered ++ [r] }
    | _, _ => none
  | .leave n =>
    match lookup Job.n n h.waiting with
    | some j => some { h with
        waiting := erase Job.n n h.waiting, leaving := h.leaving ++ [j] }
    | none => none
  | .take n =>
    match lookup Job.n n h.leaving with
    | some j => some { h.take j.id with leaving := erase Job.n n h.leaving }
    | none => none
  | .poll host => some { h with pollers := h.pollers ++ [⟨host, 0, false⟩] }
  | .receive i =>
    match h.pollers[i]? with
    | some p =>
      if p.done || pollBatch ≤ p.got then none
      else match h.queues p.host with
        | j :: rest => some { h with
            queues := fun host => if host = p.host then rest else h.queues host
            pollers := h.pollers.set i { p with got := p.got + 1 }
            handed := h.handed ++ [(i, j)] }
        | [] => none
    | none => none
  | .respond i =>
    match h.pollers[i]? with
    | some p =>
      -- Before its first job a poll may end at any time, and then when there is no more to take.
      if p.done || (p.got ≠ 0 && p.got ≠ pollBatch && h.queues p.host ≠ []) then none
      else some { h with pollers := h.pollers.set i { p with done := true } }
    | none => none
  | .post p =>
    match h.takeFor p.id p.host with
    | some (j, h') => some { h' with posting := h.posting ++ [(j, p)] }
    | none => some h
  | .send n =>
    match lookup jobOf n h.posting with
    | some r => some { h with
        posting := erase jobOf n h.posting
        -- The channel has room for one result, and another one is dropped.
        results := if n ∈ h.results.map jobOf then h.results else h.results ++ [r] }
    | none => none
  | .close => some { h with closed := true }

def Step (h : Hub ρ) (a : Act ρ) (h' : Hub ρ) : Prop := h.step a = some h'

end Hub

/-! ## What is kept apart -/

open List Nat

namespace Hub

variable {ρ : Type*} {h h' : Hub ρ}

/-! ### Queues and pollers -/

/-- What holds of the queues and of the jobs that pollers got. -/
structure Queued (h : Hub ρ) : Prop where
  host : ∀ H, ∀ j ∈ h.queues H, j.host = H
  once : ∀ H, Keyed.Distinct Job.n (h.queues H)
  across : ∀ H H', ∀ j ∈ h.queues H, ∀ k ∈ h.queues H', j.n = k.n → H = H'
  apart : ∀ H, ∀ j ∈ h.queues H, j.n ∉ h.handed.map fun e => e.2.n
  handedOnce : Keyed.Distinct (fun e : Nat × Job => e.2.n) h.handed
  handedHost : ∀ e ∈ h.handed, (h.pollers[e.1]?).map Poller.host = some e.2.host
  queuesBelow : ∀ H, ∀ j ∈ h.queues H, j.n < h.next
  handedBelow : ∀ e ∈ h.handed, e.2.n < h.next

theorem queued_new : Queued (new : Hub ρ) where
  host _ _ hj := nomatch hj
  once _ := distinct_nil
  across _ _ _ hj := nomatch hj
  apart _ _ hj := nomatch hj
  handedOnce := distinct_nil
  handedHost _ he := nomatch he
  queuesBelow _ _ hj := nomatch hj
  handedBelow _ he := nomatch he

theorem Queued.congr (hq : Queued h) (hqueues : h'.queues = h.queues) (hhanded : h'.handed = h.handed)
    (hpollers : ∀ (i : Nat) (p : Poller), h.pollers[i]? = some p →
      (h'.pollers[i]?).map Poller.host = some p.host)
    (hnext : h.next ≤ h'.next) : Queued h' where
  host := hqueues ▸ hq.host
  once := hqueues ▸ hq.once
  across := hqueues ▸ hq.across
  apart := by
    rw [hqueues, hhanded]
    exact hq.apart
  handedOnce := hhanded ▸ hq.handedOnce
  handedHost e he := by
    rw [hhanded] at he
    obtain ⟨p, hp, hhost⟩ := Option.map_eq_some_iff.1 (hq.handedHost e he)
    rw [hpollers e.1 p hp, hhost]
  queuesBelow H j hj := (hq.queuesBelow H j (hqueues ▸ hj)).trans_le hnext
  handedBelow e he := (hq.handedBelow e (hhanded ▸ he)).trans_le hnext

theorem host_set {pollers : List Poller} {i : Nat} {p p' : Poller} (hi : pollers[i]? = some p)
    (hhost : p'.host = p.host) (k : Nat) :
    ((pollers.set i p')[k]?).map Poller.host = (pollers[k]?).map Poller.host := by
  rw [getElem?_set]
  split
  · rename_i hik
    subst hik
    obtain ⟨hlt, -⟩ := List.getElem?_eq_some_iff.1 hi
    rw [if_pos hlt, hi, Option.map_some, Option.map_some, hhost]
  · rfl

/-! ### Jobs and results -/

def alive (h : Hub ρ) : List Job := h.waiting ++ h.leaving

def settled (h : Hub ρ) : List (Job × Post ρ) := h.posting ++ (h.results ++ h.delivered)

/-- What holds of the table of jobs, their handlers and their results. -/
structure Answered (h : Hub ρ) : Prop where
  cap : h.jobs.length ≤ queueCap
  ids : Keyed.Distinct Job.id h.jobs
  entries : ∀ j ∈ h.jobs, j ∈ h.alive
  handlers : Keyed.Distinct Job.n h.alive
  /-- A result is accepted once for each job, and not before the job is taken from the table. -/
  once : Keyed.Distinct jobOf h.settled
  pending : ∀ j ∈ h.jobs, j.n ∉ h.settled.map jobOf
  own : ∀ r ∈ h.settled, r.2.id = r.1.id ∧ r.2.host = r.1.host
  aliveBelow : ∀ j ∈ h.alive, j.n < h.next
  settledBelow : ∀ r ∈ h.settled, jobOf r < h.next

theorem answered_new : Answered (new : Hub ρ) where
  cap := Nat.zero_le _
  ids := distinct_nil
  entries _ hj := nomatch hj
  handlers := distinct_nil
  once := distinct_nil
  pending _ hj := nomatch hj
  own _ hr := nomatch hr
  aliveBelow _ hj := nomatch hj
  settledBelow _ hr := nomatch hr

theorem Answered.congr (ha : Answered h) (hjobs : h'.jobs = h.jobs)
    (hentries : ∀ j ∈ h.jobs, j ∈ h'.alive) (halive : h'.alive.Subperm h.alive)
    (hsettled : h'.settled.Subperm h.settled) (hnext : h.next ≤ h'.next) : Answered h' where
  cap := hjobs ▸ ha.cap
  ids := hjobs ▸ ha.ids
  entries := hjobs ▸ hentries
  handlers := ha.handlers.subperm halive
  once := ha.once.subperm hsettled
  pending j hj hmem := ha.pending j (hjobs ▸ hj) (map_subset jobOf hsettled.subset hmem)
  own r hr := ha.own r (hsettled.subset hr)
  aliveBelow j hj := (ha.aliveBelow j (halive.subset hj)).trans_le hnext
  settledBelow r hr := (ha.settledBelow r (hsettled.subset hr)).trans_le hnext

/-! ## Steps -/

theorem enqueue_cases (h : Hub ρ) (j : Job) : (∃ err, h.enqueue j = .error err) ∨
    (j.id ∉ h.jobs.map Job.id ∧ h.jobs.length < queueCap ∧ h.enqueue j = .ok { h with
      queues := fun host => if host = j.host then h.queues j.host ++ [j] else h.queues host
      jobs := h.jobs ++ [j] }) := by
  rw [enqueue]
  split
  · exact .inl ⟨_, rfl⟩
  split
  · exact .inl ⟨_, rfl⟩
  split
  · exact .inl ⟨_, rfl⟩
  · split
    · rename_i hid hcap hroom
      exact .inr ⟨hid, Nat.lt_of_not_le hcap, rfl⟩
    · exact .inl ⟨_, rfl⟩

theorem takeFor_cases (h : Hub ρ) (id host : Text) : h.takeFor id host = none ∨
    ∃ j, lookup Job.id id h.jobs = some j ∧ j.host = host ∧
      h.takeFor id host = some (j, h.take id) := by
  rw [takeFor]
  cases hlook : lookup Job.id id h.jobs with
  | none => exact .inl rfl
  | some j =>
    dsimp only
    split
    · rename_i hhost
      exact .inr ⟨j, rfl, hhost, rfl⟩
    · exact .inl rfl

theorem receive_inv {i : Nat} (hstep : h.step (.receive i) = some h') :
    ∃ p j rest, h.pollers[i]? = some p ∧ h.queues p.host = j :: rest ∧ h' = { h with
      queues := fun host => if host = p.host then rest else h.queues host
      pollers := h.pollers.set i { p with got := p.got + 1 }
      handed := h.handed ++ [(i, j)] } := by
  rw [step] at hstep
  split at hstep
  · rename_i p hp
    split at hstep
    · cases hstep
    · split at hstep
      · rename_i j rest hqueue
        cases hstep
        exact ⟨p, j, rest, hp, hqueue, rfl⟩
      · cases hstep
  · cases hstep

theorem respond_inv {i : Nat} (hstep : h.step (.respond i) = some h') :
    ∃ p, h.pollers[i]? = some p ∧
      h' = { h with pollers := h.pollers.set i { p with done := true } } := by
  rw [step] at hstep
  split at hstep
  · rename_i p hp
    split at hstep
    · cases hstep
    · cases hstep
      exact ⟨p, hp, rfl⟩
  · cases hstep

theorem Queued.request (hq : Queued h) (id host : Text) (hstep : h.step (.request id host) = some h') :
    Queued h' := by
  rw [step] at hstep
  rcases enqueue_cases h ⟨h.next, id, host⟩ with ⟨err, he⟩ | ⟨-, -, he⟩
  · rw [he] at hstep
    cases hstep
    exact hq.congr rfl rfl (fun i p hp => by rw [hp]; rfl) (le_succ _)
  rw [he] at hstep
  cases hstep
  -- The number of the new job is above all others.
  have hmem {H : Text} {j : Job} (hj : j ∈ if H = host then h.queues host ++ [⟨h.next, id, host⟩]
      else h.queues H) : j ∈ h.queues H ∨ (H = host ∧ j = ⟨h.next, id, host⟩) := by
    split at hj
    · rename_i hH
      subst hH
      exact (mem_append.1 hj).imp_right fun hj => ⟨rfl, mem_singleton.1 hj⟩
    · exact .inl hj
  refine ⟨fun H j hj => ?_, fun H => ?_, fun H H' j hj k hk hn => ?_, fun H j hj => ?_,
    hq.handedOnce, hq.handedHost,
    fun H j hj => ?_, fun e he => (hq.handedBelow e he).trans (lt_succ_self _)⟩
  · rcases hmem hj with hj | ⟨rfl, rfl⟩
    · exact hq.host H j hj
    · rfl
  · dsimp only
    split
    · refine distinct_concat (hq.once host) fun hn => ?_
      obtain ⟨j, hj, hjn⟩ := mem_map.1 hn
      exact absurd hjn (Nat.ne_of_lt (hq.queuesBelow host j hj))
    · exact hq.once H
  · rcases hmem hj with hold | ⟨hH, rfl⟩
    · rcases hmem hk with hold' | ⟨-, rfl⟩
      · exact hq.across H H' j hold k hold' hn
      · exact absurd hn (Nat.ne_of_lt (hq.queuesBelow H j hold))
    · rcases hmem hk with hold' | ⟨hH', -⟩
      · exact absurd hn.symm (Nat.ne_of_lt (hq.queuesBelow H' k hold'))
      · rw [hH, hH']
  · rcases hmem hj with hj | ⟨rfl, rfl⟩
    · exact hq.apart H j hj
    · intro hn
      obtain ⟨e, he, hen⟩ := mem_map.1 hn
      exact absurd hen (Nat.ne_of_lt (hq.handedBelow e he))
  · rcases hmem hj with hj | ⟨rfl, rfl⟩
    · exact (hq.queuesBelow H j hj).trans (lt_succ_self _)
    · exact lt_succ_self _

theorem Queued.receive (hq : Queued h) (i : Nat) (hstep : h.step (.receive i) = some h') :
    Queued h' := by
  obtain ⟨p, j, rest, hp, hqueue, rfl⟩ := receive_inv hstep
  have hj : j ∈ h.queues p.host := hqueue ▸ .head _
  have honce : Keyed.Distinct Job.n (j :: rest) := hqueue ▸ hq.once p.host
  rw [Keyed.Distinct, map_cons, nodup_cons] at honce
  -- What is left in the queues is not the job that was taken.
  have hleft {H : Text} {k : Job} (hk : k ∈ if H = p.host then rest else h.queues H) :
      k ∈ h.queues H ∧ k.n ≠ j.n := by
    split at hk
    · rename_i hH
      exact ⟨hH ▸ hqueue ▸ .tail _ hk, fun hn => honce.1 (hn ▸ mem_map_of_mem hk)⟩
    · rename_i hH
      exact ⟨hk, fun hn => hH (hq.across H p.host k hk j hj hn)⟩
  refine ⟨fun H k hk => hq.host H k (hleft hk).1, fun H => ?_,
    fun H H' k hk k' hk' => hq.across H H' k (hleft hk).1 k' (hleft hk').1,
    fun H k hk hn => ?_, distinct_concat hq.handedOnce (hq.apart p.host j hj),
    fun e he => ?_, fun H k hk => hq.queuesBelow H k (hleft hk).1, fun e he => ?_⟩
  · dsimp only
    split
    · exact honce.2
    · exact hq.once H
  · rw [map_append, mem_append] at hn
    rcases hn with hn | hn
    · exact hq.apart H k (hleft hk).1 hn
    · exact (hleft hk).2 (mem_singleton.1 hn)
  · rw [host_set hp (by rfl)]
    rcases mem_append.1 he with he | he
    · exact hq.handedHost e he
    · rw [mem_singleton.1 he, hp, hq.host p.host j hj]
      rfl
  · rcases mem_append.1 he with he | he
    · exact hq.handedBelow e he
    · rw [mem_singleton.1 he]
      exact hq.queuesBelow p.host j hj

theorem Queued.respond (hq : Queued h) (i : Nat) (hstep : h.step (.respond i) = some h') :
    Queued h' := by
  obtain ⟨p, hp, rfl⟩ := respond_inv hstep
  refine hq.congr rfl rfl (fun k p' hp' => ?_) (le_refl _)
  rw [host_set hp (by rfl), hp']
  rfl

theorem Queued.step (hq : Queued h) {a : Act ρ} (hstep : h.Step a h') : Queued h' := by
  have hpollers (i : Nat) (p : Poller) (hp : h.pollers[i]? = some p) :
      (h.pollers[i]?).map Poller.host = some p.host := by
    rw [hp]
    rfl
  rw [Step] at hstep
  cases a with
  | request id host => exact hq.request id host hstep
  | receive i => exact hq.receive i hstep
  | respond i => exact hq.respond i hstep
  | result n | leave n | take n | send n =>
    rw [Hub.step] at hstep
    split at hstep
    · cases hstep
      exact hq.congr rfl rfl hpollers (le_refl _)
    · cases hstep
  | poll host =>
    cases hstep
    refine hq.congr rfl rfl (fun i p hp => ?_) (le_refl _)
    rw [getElem?_append_left (List.getElem?_eq_some_iff.1 hp).1]
    exact hpollers i p hp
  | post p =>
    rw [Hub.step] at hstep
    rcases takeFor_cases h p.id p.host with htake | ⟨j, -, -, htake⟩
    · rw [htake] at hstep
      cases hstep
      exact hq
    · rw [htake] at hstep
      cases hstep
      exact hq.congr rfl rfl hpollers (le_refl _)
  | close =>
    cases hstep
    exact hq.congr rfl rfl hpollers (le_refl _)

theorem Answered.request (ha : Answered h) (id host : Text)
    (hstep : h.step (.request id host) = some h') : Answered h' := by
  rw [step] at hstep
  rcases enqueue_cases h ⟨h.next, id, host⟩ with ⟨err, he⟩ | ⟨hid, hcap, he⟩
  · rw [he] at hstep
    cases hstep
    exact ha.congr rfl ha.entries (.refl _) (.refl _) (le_succ _)
  rw [he] at hstep
  cases hstep
  have hperm : (h.waiting ++ [(⟨h.next, id, host⟩ : Job)] ++ h.leaving).Perm
      ((⟨h.next, id, host⟩ : Job) :: h.alive) := by
    rw [append_assoc]
    exact perm_middle
  have hnew : h.next ∉ h.alive.map Job.n := fun hn => by
    obtain ⟨j, hj, hjn⟩ := mem_map.1 hn
    exact absurd hjn (Nat.ne_of_lt (ha.aliveBelow j hj))
  refine ⟨?_, distinct_concat ha.ids hid, fun j hj => hperm.mem_iff.2 ?_,
    (hperm.map Job.n).nodup_iff.2 (nodup_cons.2 ⟨hnew, ha.handlers⟩), ha.once,
    fun j hj hn => ?_, ha.own, fun j hj => ?_, fun r hr =>
      (ha.settledBelow r hr).trans (lt_succ_self _)⟩
  · rw [length_append]
    exact hcap
  · rcases mem_append.1 hj with hj | hj
    · exact .tail _ (ha.entries j hj)
    · rw [mem_singleton.1 hj]
      exact .head _
  · rcases mem_append.1 hj with hj | hj
    · exact ha.pending j hj hn
    · obtain ⟨r, hr, hrn⟩ := mem_map.1 hn
      rw [mem_singleton.1 hj] at hrn
      exact absurd hrn (Nat.ne_of_lt (ha.settledBelow r hr))
  · rcases mem_cons.1 (hperm.mem_iff.1 hj) with rfl | hj
    · exact lt_succ_self _
    · exact (ha.aliveBelow j hj).trans (lt_succ_self _)

theorem Answered.result (ha : Answered h) (n : Nat) (hstep : h.step (.result n) = some h') :
    Answered h' := by
  rw [step] at hstep
  split at hstep
  · rename_i j r hj hr
    cases hstep
    have hsettled : (h.posting ++ (erase jobOf n h.results ++ (h.delivered ++ [r]))).Perm
        h.settled := by
      refine Perm.append_left _ ?_
      have hmove : (erase jobOf n h.results ++ (h.delivered ++ [r])).Perm
          ((r :: erase jobOf n h.results) ++ h.delivered) := by
        rw [← append_assoc]
        exact perm_append_singleton _ _
      exact hmove.trans ((perm_cons_erase hr).symm.append_right _)
    have hreturn : (erase Job.n n h.waiting ++ h.leaving).Subperm h.alive :=
      (Sublist.append_right eraseP_sublist _).subperm
    refine ha.congr rfl (fun k hk => ?_) hreturn hsettled.subperm (le_refl _)
    have hkn : k.n ≠ n := fun hkn => ha.pending k hk (by
      rw [hkn, ← key_of_lookup hr]
      exact mem_map_of_mem (mem_append_right _ (mem_append_left _ (mem_of_lookup hr))))
    rcases mem_append.1 (ha.entries k hk) with hwait | hleave
    · exact mem_append_left _ ((mem_erase (ha.handlers.sublist (sublist_append_left _ _))).2 ⟨hwait, hkn⟩)
    · exact mem_append_right _ hleave
  · cases hstep

theorem Answered.leave (ha : Answered h) (n : Nat) (hstep : h.step (.leave n) = some h') :
    Answered h' := by
  rw [step] at hstep
  split at hstep
  · rename_i j hj
    cases hstep
    have hmove : (erase Job.n n h.waiting ++ (h.leaving ++ [j])).Perm h.alive := by
      rw [← append_assoc]
      exact (perm_append_singleton _ _).trans
        ((perm_cons_erase hj).symm.append_right h.leaving)
    exact ha.congr rfl (fun k hk => hmove.mem_iff.2 (ha.entries k hk)) hmove.subperm (.refl _)
      (le_refl _)
  · cases hstep

theorem Answered.take (ha : Answered h) (n : Nat) (hstep : h.step (.take n) = some h') :
    Answered h' := by
  rw [step] at hstep
  split at hstep
  · rename_i j hj
    cases hstep
    have hin {k : Job} (hk : k ∈ erase Job.id j.id h.jobs) : k ∈ h.jobs ∧ k.id ≠ j.id :=
      (mem_erase ha.ids).1 hk
    have hreturn : (h.waiting ++ erase Job.n n h.leaving).Subperm h.alive :=
      (Sublist.append_left eraseP_sublist _).subperm
    refine ⟨(eraseP_sublist.length_le).trans ha.cap, distinct_erase ha.ids,
      fun k hk => ?_, ha.handlers.subperm hreturn, ha.once,
      fun k hk => ha.pending k (hin hk).1, ha.own,
      fun k hk => ha.aliveBelow k (hreturn.subset hk), ha.settledBelow⟩
    have hkn : k.n ≠ n := fun hkn => (hin hk).2 (congrArg Job.id (ha.handlers.eq_of_key
      (ha.entries k (hin hk).1) (mem_append_right _ (mem_of_lookup hj))
      (hkn.trans (key_of_lookup hj).symm)))
    rcases mem_append.1 (ha.entries k (hin hk).1) with hwait | hleave
    · exact mem_append_left _ hwait
    · exact mem_append_right _ ((mem_erase (ha.handlers.sublist (sublist_append_right _ _))).2 ⟨hleave, hkn⟩)
  · cases hstep

theorem Answered.post (ha : Answered h) (p : Post ρ) (hstep : h.step (.post p) = some h') :
    Answered h' := by
  rw [step] at hstep
  rcases takeFor_cases h p.id p.host with htake | ⟨j, hj, hhost, htake⟩
  · rw [htake] at hstep
    cases hstep
    exact ha
  rw [htake] at hstep
  cases hstep
  have hmem : j ∈ h.jobs := mem_of_lookup hj
  have hid : j.id = p.id := key_of_lookup hj
  have hin {k : Job} (hk : k ∈ erase Job.id p.id h.jobs) : k ∈ h.jobs ∧ k.id ≠ p.id :=
    (mem_erase ha.ids).1 hk
  have hperm : (h.posting ++ [(j, p)] ++ (h.results ++ h.delivered)).Perm ((j, p) :: h.settled) := by
    rw [append_assoc]
    exact perm_middle
  refine ⟨(eraseP_sublist.length_le).trans ha.cap, distinct_erase ha.ids,
    fun k hk => ha.entries k (hin hk).1, ha.handlers,
    (hperm.map jobOf).nodup_iff.2 (nodup_cons.2 ⟨ha.pending j hmem, ha.once⟩),
    fun k hk hn => ?_, fun r hr => ?_, ha.aliveBelow, fun r hr => ?_⟩
  · rcases mem_cons.1 ((hperm.map jobOf).mem_iff.1 hn) with hkn | hn
    · exact (hin hk).2 ((congrArg Job.id (ha.handlers.eq_of_key (ha.entries k (hin hk).1)
        (ha.entries j hmem) hkn)).trans hid)
    · exact ha.pending k (hin hk).1 hn
  · rcases mem_cons.1 (hperm.mem_iff.1 hr) with rfl | hr
    · exact ⟨hid.symm, hhost.symm⟩
    · exact ha.own r hr
  · rcases mem_cons.1 (hperm.mem_iff.1 hr) with rfl | hr
    · exact ha.aliveBelow j (ha.entries j hmem)
    · exact ha.settledBelow r hr

theorem Answered.send (ha : Answered h) (n : Nat) (hstep : h.step (.send n) = some h') :
    Answered h' := by
  rw [step] at hstep
  split at hstep
  · rename_i r hr
    cases hstep
    refine ha.congr rfl ha.entries (.refl _) ?_ (le_refl _)
    have hposting : (erase jobOf n h.posting ++ ([r] ++ (h.results ++ h.delivered))).Perm
        h.settled := by
      rw [← append_assoc]
      exact ((perm_append_singleton _ _).trans (perm_cons_erase hr).symm).append_right _
    refine List.Subperm.trans ?_ hposting.subperm
    refine (subperm_append_left _).2 ?_
    split
    · exact (sublist_append_right [r] _).subperm
    · have hswap : (h.results ++ [r]).Perm ([r] ++ h.results) := perm_append_comm
      exact (hswap.append_right _).subperm
  · cases hstep

theorem Answered.step (ha : Answered h) {a : Act ρ} (hstep : h.Step a h') : Answered h' := by
  cases a with
  | request id host => exact ha.request id host hstep
  | result n => exact ha.result n hstep
  | leave n => exact ha.leave n hstep
  | take n => exact ha.take n hstep
  | post p => exact ha.post p hstep
  | send n => exact ha.send n hstep
  | poll host | close =>
    cases hstep
    exact ha.congr rfl ha.entries (.refl _) (.refl _) (le_refl _)
  | receive i =>
    obtain ⟨p, j, rest, -, -, rfl⟩ := receive_inv hstep
    exact ha.congr rfl ha.entries (.refl _) (.refl _) (le_refl _)
  | respond i =>
    obtain ⟨p, -, rfl⟩ := respond_inv hstep
    exact ha.congr rfl ha.entries (.refl _) (.refl _) (le_refl _)

/-! ## Runs -/

/-- The jobs whose handlers have not returned have different ids. -/
def DistinctIds (h : Hub ρ) : Prop := Keyed.Distinct Job.id h.alive

/-- A handler that gives up, or removes its job after it gave up, removes no other job and moves no
    result. -/
def Alone (n : Nat) (h h' : Hub ρ) : Prop :=
  (∀ j, j.n ≠ n → (j ∈ h'.jobs ↔ j ∈ h.jobs)) ∧ h'.queues = h.queues ∧ h'.posting = h.posting ∧
    h'.results = h.results ∧ h'.delivered = h.delivered

theorem Answered.alone_take (ha : Answered h) (hids : DistinctIds h) {n : Nat}
    (hstep : h.Step (.take n) h') : Alone n h h' := by
  rw [Step, Hub.step] at hstep
  split at hstep
  · rename_i j hj
    cases hstep
    refine ⟨fun k hk => (mem_erase ha.ids).trans (and_iff_left_of_imp fun hmem hid => ?_),
      rfl, rfl, rfl, rfl⟩
    -- Of the jobs with this id there is one whose handler has not returned.
    have hkj : k = j := hids.eq_of_key (ha.entries k hmem)
      (mem_append_right _ (mem_of_lookup hj)) hid
    exact hk (hkj ▸ key_of_lookup hj)
  · cases hstep

theorem alone_leave {n : Nat} (hstep : h.Step (.leave n) h') : Alone n h h' := by
  rw [Step, Hub.step] at hstep
  split at hstep
  · cases hstep
    exact ⟨fun _ _ => Iff.rfl, rfl, rfl, rfl, rfl⟩
  · cases hstep

end Hub

open Hub

/-- After any interleaving of pages, pollers, posts, timeouts, disconnects and the close of the hub:
    a poller got jobs of its own host; no job was handed out twice; no page got two results, and the
    one it got was posted for its id from its host; at most 64 jobs are in the table; and as long as
    the ids of jobs whose handlers have not returned are different, a handler that gives up leaves
    all other jobs and all results as they are. -/
theorem hub_sound {ρ : Type*} {acts : List (Act ρ)} {h : Hub ρ} (hrun : Trace Hub.Step new acts h) :
    (∀ e ∈ h.handed, (h.pollers[e.1]?).map Poller.host = some e.2.host) ∧
    (h.handed.map fun e => e.2.n).Nodup ∧
    (h.delivered.map fun r => r.1.n).Nodup ∧
    (∀ r ∈ h.delivered, r.2.id = r.1.id ∧ r.2.host = r.1.host) ∧
    h.jobs.length ≤ 64 ∧
    (h.DistinctIds → ∀ n h', h.Step (.leave n) h' ∨ h.Step (.take n) h' → Hub.Alone n h h') := by
  have hq : h.Queued := hrun.invariant queued_new fun _ _ _ hs hstep => hs.step hstep
  have ha : h.Answered := hrun.invariant answered_new fun _ _ _ hs hstep => hs.step hstep
  have hsub : h.delivered.Sublist h.settled :=
    (sublist_append_right _ _).trans (sublist_append_right _ _)
  refine ⟨hq.handedHost, hq.handedOnce, ha.once.sublist hsub, fun r hr => ha.own r (hsub.subset hr),
    ha.cap, fun hids n h' hstep => ?_⟩
  rcases hstep with hstep | hstep
  · exact alone_leave hstep
  · exact ha.alone_take hids hstep

/-- A page parks a job, a poller of its host gets it, and its result is posted and delivered. -/
theorem hub_sound_one_job :
    ∃ h : Hub Nat, Trace Hub.Step new [.poll ['h'], .request ['a'] ['h'], .receive 0,
        .respond 0, .post ⟨['a'], ['h'], 200⟩, .send 0, .result 0] h ∧
      h.delivered.length = 1 ∧ (h.delivered.map fun r => r.1.n).Nodup ∧ h.jobs.length ≤ 64 := by
  have hrun : ∃ h : Hub Nat, Trace Hub.Step new [.poll ['h'], .request ['a'] ['h'], .receive 0,
      .respond 0, .post ⟨['a'], ['h'], 200⟩, .send 0, .result 0] h ∧ h.delivered.length = 1 :=
    ⟨_, .cons rfl (.cons rfl (.cons rfl (.cons rfl (.cons rfl (.cons rfl (.cons rfl (.nil _))))))),
      rfl⟩
  obtain ⟨h, hrun, hlen⟩ := hrun
  obtain ⟨-, -, honce, -, hcap, -⟩ := hub_sound hrun
  exact ⟨h, hrun, hlen, honce, hcap⟩

/-! ## Pages that wait -/

namespace Hub

variable {ρ : Type*} {h h' : Hub ρ}

/-- A page that waits can be answered: its job is in the table, or a result is on its way. -/
def Answerable (h : Hub ρ) : Prop :=
  ∀ j ∈ h.waiting, j ∈ h.jobs ∨ j.n ∈ (h.posting ++ h.results).map jobOf

theorem Answerable.step (hw : h.Answerable) (ha : h.Answered) (hids : h.DistinctIds) {a : Act ρ}
    (hstep : h.Step a h') : h'.Answerable := by
  have hwaiting := ha.handlers.sublist (sublist_append_left h.waiting _)
  have hjobs := ha.ids
  -- What is erased from a list of results is the result of one job.
  have herase {n m : Nat} {l : List (Job × Post ρ)} {r : Job × Post ρ}
      (hr : lookup jobOf n l = some r) (hm : m ∈ l.map jobOf) :
      m = n ∨ m ∈ (erase jobOf n l).map jobOf := by
    have hcons := ((perm_cons_erase hr).map jobOf).mem_iff.1 hm
    grind [key_of_lookup]
  rw [Step] at hstep
  cases a with
  | poll | close | receive | respond => grind [Hub.step, Answerable]
  | leave | result => grind [Hub.step, Answerable, mem_erase]
  | send n => grind [Hub.step, Answerable, key_of_lookup]
  | request id host =>
    have hcases := enqueue_cases h ⟨h.next, id, host⟩
    grind [Hub.step, Answerable]
  | take n =>
    rw [DistinctIds, Keyed.Distinct, alive, map_append, nodup_append] at hids
    -- The job that is removed has another id than those of the pages that wait.
    have hne (j k : Job) (hj : j ∈ h.waiting) (hk : k ∈ h.leaving) : j.id ≠ k.id :=
      hids.2.2 _ (mem_map_of_mem hj) _ (mem_map_of_mem hk)
    grind [Hub.step, Answerable, Hub.take, mem_of_lookup, mem_erase]
  | post p =>
    have hcases := takeFor_cases h p.id p.host
    have hone (j k : Job) := ha.ids.eq_of_key (y := j) (z := k)
    grind [Hub.step, Answerable, Hub.take, mem_of_lookup, mem_erase, key_of_lookup, jobOf]

end Hub

/-- No page is forgotten, in any interleaving in which the ids of live jobs are different. -/
theorem waiting_answerable {ρ : Type*} {acts : List (Act ρ)} {h : Hub ρ}
    (hrun : Trace (fun h a h' => h.DistinctIds ∧ Hub.Step h a h') new acts h) : h.Answerable :=
  (hrun.invariant (I := fun h => h.Answered ∧ h.Answerable) ⟨answered_new, nofun⟩
    fun _ _ _ hs hstep => ⟨hs.1.step hstep.2, hs.2.step hs.1 hstep.1 hstep.2⟩).2

/-- A page waits, and a poller asks for its host. -/
theorem waiting_answerable_request : ∃ h h' : Hub Nat, new.step (.request ['a'] ['h']) = some h ∧
    h.step (.poll ['h']) = some h' ∧ h'.waiting ≠ [] ∧ h'.Answerable :=
  have hstep : new.step (.request ['a'] ['h']) = some (_ : Hub Nat) := rfl
  have hpoll (h : Hub Nat) : h.step (.poll ['h']) = some _ := rfl
  ⟨_, _, hstep, hpoll _, nofun, waiting_answerable (.cons ⟨distinct_nil, hstep⟩
    (.cons ⟨nodup_singleton _, hpoll _⟩ (.nil _)))⟩

/-! ## Queues and pages -/

/-- What a poller does. -/
def Act.isPolling {ρ : Type*} : Act ρ → Bool
  | .poll _ | .receive _ | .respond _ => true
  | _ => false

namespace Hub

variable {ρ : Type*} {h h' : Hub ρ}

/-- A step of a poller. -/
def Polls (h : Hub ρ) (a : Act ρ) (h' : Hub ρ) : Prop := a.isPolling ∧ h.Step a h'

/-- The pages of all queued jobs are still waiting. -/
def Agrees (h : Hub ρ) : Prop := ∀ H, ∀ j ∈ h.queues H, j ∈ h.waiting

theorem Agrees.polls (hagrees : h.Agrees) {a : Act ρ} (hstep : h.Polls a h') : h'.Agrees := by
  obtain ⟨ha, hstep⟩ := hstep
  cases a with
  | poll host =>
    cases hstep
    exact hagrees
  | receive i =>
    obtain ⟨p, j, rest, -, hqueue, rfl⟩ := receive_inv hstep
    intro H k hk
    dsimp only at hk
    split at hk
    · exact hagrees p.host k (hqueue ▸ .tail _ hk)
    · exact hagrees H k hk
  | respond i =>
    obtain ⟨p, -, rfl⟩ := respond_inv hstep
    exact hagrees
  | _ => cases ha

/-- A poll that begins gets the first job of its queue. -/
theorem exists_receive {H : Text} {j : Job} {rest : List Job} (hqueue : h.queues H = j :: rest) :
    ∃ h₁ h₂, h.Polls (.poll H) h₁ ∧ h₁.Polls (.receive h.pollers.length) h₂ ∧
      h₁.waiting = h.waiting ∧ h₂.waiting = h.waiting ∧ h₂.queues H = rest ∧
      h₂.handed = h₁.handed ++ [(h.pollers.length, j)] := by
  refine ⟨_, { h with
      queues := fun host => if host = H then rest else h.queues host
      pollers := (h.pollers ++ [(⟨H, 0, false⟩ : Poller)]).set h.pollers.length ⟨H, 1, false⟩
      handed := h.handed ++ [(h.pollers.length, j)] },
    ⟨rfl, rfl⟩, ⟨rfl, ?_⟩, rfl, rfl, if_pos rfl, rfl⟩
  rw [Step, step, getElem?_append_right (le_refl _), Nat.sub_self]
  dsimp only [getElem?_cons_zero]
  have hbatch : ¬(false || decide (pollBatch ≤ 0)) := Bool.false_ne_true
  rw [if_neg hbatch, hqueue]

theorem exists_polls {H : Text} {j : Job} {before after : List Job}
    (hqueue : h.queues H = before ++ j :: after) :
    ∃ acts h₁ i h₂, Trace Polls h acts h₁ ∧ h₁.waiting = h.waiting ∧ h₁.Step (.receive i) h₂ ∧
      h₂.handed = h₁.handed ++ [(i, j)] := by
  induction before generalizing h with
  | nil =>
    obtain ⟨h₁, h₂, hpoll, hreceive, hwaiting, -, -, hhanded⟩ := exists_receive hqueue
    exact ⟨_, h₁, _, h₂, .cons hpoll (.nil _), hwaiting, hreceive.2, hhanded⟩
  | cons k before ih =>
    obtain ⟨h₁, h₂, hpoll, hreceive, -, hwaiting, hrest, -⟩ := exists_receive hqueue
    obtain ⟨acts, h₃, i, h₄, hrun, hwaiting', hstep, hhanded⟩ := ih hrest
    exact ⟨_, h₃, i, h₄, .cons hpoll (.cons hreceive hrun), hwaiting'.trans hwaiting, hstep, hhanded⟩

theorem full_of_enqueue {j : Job} (hopen : h.closed = false)
    (hfull : h.enqueue j = .error .queueFull) :
    queueCap ≤ h.jobs.length ∨ queueCap ≤ (h.queues j.host).length := by
  rw [enqueue, hopen, if_neg Bool.false_ne_true] at hfull
  split_ifs at hfull with hid hjobs hqueue
  · cases hfull
  · exact .inl hjobs
  · exact .inr (Nat.le_of_not_lt hqueue)

end Hub

/-- From any state of any interleaving, and however pollers go on: the jobs they get are of pages
    that still wait, and a job is refused for lack of room only while 64 are parked, exactly if the
    pages of all queued jobs are still waiting. -/
theorem handed_waiting_iff {ρ : Type*} {acts : List (Act ρ)} {h : Hub ρ}
    (hrun : Trace Hub.Step new acts h) :
    ((∀ acts' h', Trace Hub.Polls h acts' h' → ∀ i h'', h'.Step (.receive i) h'' →
        ∀ e, h''.handed = h'.handed ++ [e] → e.2 ∈ h'.waiting) ∧
      ∀ id host, h.closed = false → h.enqueue ⟨h.next, id, host⟩ = .error .queueFull →
        queueCap ≤ h.alive.length) ↔ h.Agrees := by
  have hq : h.Queued := hrun.invariant queued_new fun _ _ _ hs hstep => hs.step hstep
  have ha : h.Answered := hrun.invariant answered_new fun _ _ _ hs hstep => hs.step hstep
  refine ⟨fun ⟨hhanded, _⟩ H j hj => ?_, fun hagrees => ⟨fun acts' h' hpolls i h'' hstep e he => ?_,
    fun id host hopen hfull => ?_⟩⟩
  · -- Pollers get the jobs before it, and then the job itself.
    obtain ⟨before, after, hqueue⟩ := append_of_mem hj
    obtain ⟨acts', h₁, i, h₂, hpolls, hwaiting, hstep, he⟩ := exists_polls hqueue
    exact hwaiting ▸ hhanded acts' h₁ hpolls i h₂ hstep _ he
  · have hagrees' : h'.Agrees := hpolls.invariant hagrees fun _ _ _ hs hstep => hs.polls hstep
    obtain ⟨p, j, rest, -, hqueue, rfl⟩ := receive_inv hstep
    rw [← singleton_inj.1 (append_cancel_left he)]
    exact hagrees' p.host j (hqueue ▸ .head _)
  · rcases full_of_enqueue hopen hfull with hjobs | hqueue
    · exact hjobs.trans (subperm_of_subset (Nodup.of_map _ ha.ids) ha.entries).length_le
    · refine hqueue.trans (subperm_of_subset (Nodup.of_map _ (hq.once host)) fun j hj => ?_).length_le
      exact mem_append_left _ (hagrees host j hj)

/-- A page parks a job and waits, and a poller asks for its host. -/
theorem handed_waiting_iff_parked :
    ∃ h : Hub Nat, Trace Hub.Step new [.request ['a'] ['h'], .poll ['h']] h ∧ h.Agrees ∧
      ∀ i h', h.Step (.receive i) h' → ∀ e, h'.handed = h.handed ++ [e] → e.2 ∈ h.waiting := by
  have hrun : ∃ h : Hub Nat, Trace Hub.Step new [.request ['a'] ['h'], .poll ['h']] h ∧ h.Agrees := by
    refine ⟨_, .cons rfl (.cons rfl (.nil _)), fun H j hj => ?_⟩
    dsimp only [new] at hj ⊢
    split at hj
    · exact hj
    · cases hj
  obtain ⟨h, hrun, hagrees⟩ := hrun
  exact ⟨h, hrun, hagrees, ((handed_waiting_iff hrun).2 hagrees).1 [] h (.nil h)⟩

/-- A page parks a job and gives up; a poller that begins later still gets the job. -/
theorem handed_after_leave :
    ∃ h h' : Hub Nat, Trace Hub.Step new [.request ['a'] ['h'], .leave 0, .take 0, .poll ['h']] h ∧
      h.Step (.receive 0) h' ∧ h'.handed = [(0, ⟨0, ['a'], ['h']⟩)] ∧
      h.waiting = [] ∧ h.jobs = [] ∧ ¬h.Agrees := by
  refine ⟨_, _, .cons rfl (.cons rfl (.cons rfl (.cons rfl (.nil _)))), rfl, rfl, rfl, rfl, ?_⟩
  intro hagrees
  exact not_mem_nil (hagrees ['h'] ⟨0, ['a'], ['h']⟩ (.head _))

end ZeroProxy.Relay.SyncFetch
