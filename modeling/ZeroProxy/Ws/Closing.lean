import ZeroProxy.Ws.Turn

/-!
# The closing of a WebSocket

What holds of a close over every interleaving of the caller, the reader task and the writer task.
-/

namespace ZeroProxy.Ws

open Bool Bytes Http List Option Text
open Trace (silent)

/-! ## What happened so far -/

/-- What happened so far in a run. -/
structure Past where
  sent : List OutMsg
  calls : List (Nat × Text)
  /-- The Close of the peer that was received. -/
  heard : Option (Nat × Text)
  /-- A Close has gone out. -/
  out : Bool
  /-- The caller has ended the connection. -/
  severed : Bool
  /-- How often a close handler was installed. -/
  installs : Nat

namespace Past

def empty : Past := ⟨[], [], none, false, false, 0⟩

variable (p : Past)

def endsInClose : Bool := p.sent.getLast?.any OutMsg.isClose

/-- A step is over. -/
def next (t : Trace) : Past where
  sent := p.sent ++ t.sent
  calls := p.calls ++ t.calls
  heard := p.heard.or t.heard
  out := p.out || t.flushed && p.endsInClose
  severed := p.severed || t.severed
  installs := p.installs + t.installs.toNat

/-- What a connection that is over should have ended with. -/
def outcome : Nat × Text :=
  match p.heard with
  | some peer => if p.out && !p.severed then peer else abnormal
  | none => abnormal

end Past

open Past

def Client.past (c : Client) (p : Past) : List Action → Past
  | [] => p
  | a :: as => (c.step a).1.past (p.next (c.trace a)) as

/-! ## The invariant -/

/-- What holds between turns. -/
structure Kept (v : View) (p : Past) : Prop where
  /-- A Close is the last of what was sent and what is queued. -/
  closeLast : (p.sent ++ v.queue).Pairwise fun m _ => m.isClose = false
  /-- There is none before one is recorded. -/
  unsealed : v.isSealed = false → (∀ m ∈ p.sent ++ v.queue, m.isClose = false) ∧ p.heard = none
  /-- There is one after. -/
  close : v.isSealed → v.ended = none → ∃ m ∈ p.sent ++ v.queue, m.isClose
  /-- The Close of the peer waits for the writer task, or is with it. -/
  heard : ∀ peer, p.heard = some peer → v.reading = false ∧ peer.1 ≠ 1006 ∧
    (v.ended = none → v.peer = some peer ∨ v.writer = .closing peer)
  /-- There is nothing to report that was not received. -/
  unheard : ∀ peer, v.peer = some peer ∨ v.writer = .closing peer → p.heard = some peer
  /-- Only a Close is still queued. -/
  lastWord : p.heard ≠ none → ∀ m ∈ v.queue, m.isClose
  /-- The transport is closed after a Close went out. -/
  closing : ∀ peer, v.writer = .closing peer → v.ended = none → p.out
  /-- What was given to the transport has gone out when the writer task waits. -/
  idle : v.writer = .idle → v.ended = none → p.endsInClose → p.out
  out : p.out → p.endsInClose ∧ v.writer ≠ .writing
  severed : p.severed → v.ended ≠ none
  ended : ∀ k, v.ended = some k → k = p.outcome
  calls : ∀ k ∈ p.calls, v.ended = some k
  count : p.calls.length ≤ p.installs
  listening : v.listening → 0 < p.installs

namespace Past

variable {p : Past}

theorem exists_of_endsInClose (h : p.endsInClose) :
    ∃ sent m, p.sent = sent ++ [m] ∧ m.isClose := by
  rw [endsInClose, Option.any_eq_true] at h
  obtain ⟨m, hlast, hm⟩ := h
  obtain ⟨sent, hsent⟩ := getLast?_eq_some_iff.1 hlast
  exact ⟨sent, m, hsent, hm⟩

theorem outcome_of_heard {peer : Nat × Text} (hheard : p.heard = some peer) (hout : p.out)
    (hsevered : p.severed = false) : p.outcome = peer := by
  rw [outcome, hheard, hout, hsevered]
  rfl

theorem outcome_of_not (h : p.heard = none ∨ p.out = false ∨ p.severed) :
    p.outcome = abnormal := by
  rw [outcome]
  cases hheard : p.heard with
  | none => rfl
  | some peer =>
    rcases h with h | h | h
    · rw [h] at hheard
      cases hheard
    · rw [h]
      rfl
    · rw [h, Bool.not_true, Bool.and_false]
      rfl

end Past

namespace Kept

variable {v v' : View} {p : Past} {t : Trace}

theorem calls_eq_nil (h : Kept v p) (hopen : v.ended = none) : p.calls = [] := by
  refine eq_nil_iff_forall_not_mem.2 fun k hk => ?_
  have hended := h.calls k hk
  rw [hopen] at hended
  cases hended

theorem queue_eq_nil (h : Kept v p) (hclose : p.endsInClose) : v.queue = [] := by
  obtain ⟨sent, m, hsent, hm⟩ := exists_of_endsInClose hclose
  refine eq_nil_iff_forall_not_mem.2 fun m' hm' => ?_
  have hlast := (pairwise_append.1 h.closeLast).2.2 m (hsent ▸ mem_append_right _ (.head _))
    m' hm'
  rw [hm] at hlast
  cases hlast

theorem endsInClose_of_sealed (h : Kept v p) (hopen : v.ended = none) (hseal : v.isSealed)
    (hqueue : v.queue = []) : p.endsInClose := by
  obtain ⟨m, hmem, hm⟩ := h.close hseal hopen
  have hpairs := h.closeLast
  rw [hqueue, append_nil] at hmem hpairs
  -- A Close that is not the last has a frame after it.
  obtain ⟨before, after, hsplit⟩ := append_of_mem hmem
  cases after with
  | nil => rw [endsInClose, hsplit, getLast?_concat]; exact hm
  | cons m' after =>
    rw [hsplit] at hpairs
    have hlast := (pairwise_cons.1 (pairwise_append.1 hpairs).2.1).1 m' (.head _)
    rw [hm] at hlast
    cases hlast

theorem finish (h : Kept v p) (hopen : v.ended = none) {k : Nat × Text} {writer : WriterTask}
    {reading severed : Bool} (hwriter : writer = v.writer ∨ writer = .done)
    (hreading : p.heard = none ∨ reading = false)
    (hk : k = outcome { p with severed }) :
    Kept { v with ended := some k, queue := [], writer, reading }
      { p with calls := p.calls ++ v.reports k, severed } := by
  have hcalls := h.calls_eq_nil hopen
  refine {
    closeLast := ?_
    unsealed := fun hseal => ?_
    close := nofun
    heard := fun peer hpeer => ⟨?_, (h.heard peer hpeer).2.1, nofun⟩
    unheard := fun peer hpeer => ?_
    lastWord := nofun
    closing := nofun
    idle := nofun
    out := fun hout => ⟨(h.out hout).1, ?_⟩
    severed := nofun
    ended := fun k' hk' => ?_
    calls := fun k' hk' => ?_
    count := ?_
    listening := h.listening }
  · exact h.closeLast.sublist ((append_nil p.sent).symm ▸ sublist_append_left _ _)
  · have hno := h.unsealed hseal
    refine ⟨fun m hm => hno.1 m ?_, hno.2⟩
    rw [append_nil] at hm
    exact mem_append_left _ hm
  · rcases hreading with hnone | hfalse
    · cases hnone.symm.trans hpeer
    · exact hfalse
  · refine h.unheard peer (hpeer.imp id fun hw => ?_)
    rcases hwriter with rfl | rfl
    · exact hw
    · cases hw
  · rcases hwriter with rfl | rfl
    · exact (h.out hout).2
    · exact nofun
  · cases hk'
    exact hk
  · rw [hcalls, View.reports] at hk'
    split_ifs at hk'
    · rw [mem_singleton.1 hk']
    · cases hk'
  · dsimp only
    rw [hcalls, View.reports]
    split_ifs with hlisten
    · exact h.listening hlisten
    · exact Nat.zero_le _

theorem heard_eq_none (h : Kept v p) (hread : v.reading) : p.heard = none := by
  cases hheard : p.heard with
  | none => rfl
  | some peer =>
    have hfalse := (h.heard peer hheard).1
    rw [hread] at hfalse
    cases hfalse

variable {peer : Nat × Text}

theorem isSealed_of_heard (h : Kept v p) (hheard : p.heard = some peer) :
    v.isSealed := by
  by_contra hseal
  have hnone := (h.unsealed (eq_false_iff.2 hseal)).2
  rw [hheard] at hnone
  cases hnone

theorem heard_of_writer (h : Kept v p) (w : WriterTask)
    (hwriter : v.ended = none → ∀ peer, v.writer ≠ .closing peer) (peer : Nat × Text)
    (hpeer : p.heard = some peer) : v.reading = false ∧ peer.1 ≠ 1006 ∧
      (v.ended = none → v.peer = some peer ∨ w = .closing peer) := by
  obtain ⟨hreading, hcode, hplace⟩ := h.heard peer hpeer
  exact ⟨hreading, hcode, fun hopen => .inl ((hplace hopen).resolve_right (hwriter hopen peer))⟩

theorem stopWrite (h : Kept v p)
    (hwriter : v.ended = none → ∀ peer, v.writer ≠ .closing peer) :
    Kept { v with writer := .done } p :=
  { h with
    heard := h.heard_of_writer _ hwriter
    unheard := fun peer hpeer => h.unheard peer (.inl (hpeer.resolve_right nofun))
    closing := nofun
    idle := nofun
    out := fun hout => ⟨(h.out hout).1, nofun⟩ }

theorem accept (h : Kept v p) (hseal : v.isSealed = false) {m : OutMsg} (hm : m.isClose = false) :
    Kept { v with queue := v.queue ++ [m] } p := by
  have hall : ∀ m' ∈ p.sent ++ (v.queue ++ [m]), m'.isClose = false := by
    rw [← append_assoc]
    intro m' hm'
    rcases mem_append.1 hm' with hm' | hm'
    · exact (h.unsealed hseal).1 m' hm'
    · rw [mem_singleton.1 hm', hm]
  exact { h with
    closeLast := pairwise_of_forall_mem_list fun m' hm' _ _ => hall m' hm'
    unsealed := fun _ => ⟨hall, (h.unsealed hseal).2⟩
    lastWord := fun hheard => absurd (h.unsealed hseal).2 hheard
    close := fun hseal' => by cases hseal.symm.trans hseal' }

theorem closeLast_append {l : List OutMsg} {payload : Bytes} (hl : ∀ m ∈ l, m.isClose = false) :
    (l ++ [OutMsg.close payload]).Pairwise fun m _ => m.isClose = false :=
  pairwise_append.2 ⟨pairwise_of_forall_mem_list fun m hm _ _ => hl m hm,
    pairwise_singleton _ _, fun m hm _ _ => hl m hm⟩

theorem sealed (h : Kept v p) (hseal : v.isSealed = false) (payload : Bytes) :
    Kept { v with isSealed := true, queue := v.queue ++ [.close payload] } p :=
  { h with
    closeLast := by
      rw [← append_assoc]
      exact closeLast_append (h.unsealed hseal).1
    unsealed := nofun
    lastWord := fun hheard => absurd (h.unsealed hseal).2 hheard
    close := fun _ _ => ⟨.close payload, mem_append_right _ (mem_append_right _ (.head _)),
      rfl⟩ }

theorem hear (h : Kept v p) (hopen : v.ended = none) (hread : v.reading)
    (hpeer : peer.1 ≠ 1006) (payload : Bytes) :
    Kept { v with
        reading := false, peer := some peer, isSealed := true,
        queue := v.queue.filter OutMsg.isClose ++ if v.isSealed then [] else [.close payload] }
      { p with heard := p.heard.or (some peer) } := by
  have hnone := h.heard_eq_none hread
  have hsublist : (p.sent ++ v.queue.filter OutMsg.isClose).Sublist (p.sent ++ v.queue) :=
    (List.Sublist.refl _).append filter_sublist
  refine { h with
    closeLast := ?_
    unsealed := nofun
    close := fun _ _ => ?_
    heard := fun peer' hpeer' => ?_
    unheard := fun peer' hpeer' => ?_
    lastWord := fun _ m hm => ?_
    ended := fun k hk => by cases hopen.symm.trans hk }
  · rw [← append_assoc]
    split_ifs with hseal
    · rw [append_nil]
      exact h.closeLast.sublist hsublist
    · exact closeLast_append fun m hm =>
        (h.unsealed (eq_false_iff.2 hseal)).1 m (hsublist.subset hm)
  · split_ifs with hseal
    · -- The Close that was recorded before is kept.
      obtain ⟨m, hmem, hm⟩ := h.close hseal hopen
      refine ⟨m, ?_, hm⟩
      rw [append_nil]
      rcases mem_append.1 hmem with hmem | hmem
      · exact mem_append_left _ hmem
      · exact mem_append_right _ (mem_filter.2 ⟨hmem, hm⟩)
    · exact ⟨.close payload, mem_append_right _ (mem_append_right _ (.head _)), rfl⟩
  · rw [hnone] at hpeer'
    cases hpeer'
    exact ⟨rfl, hpeer, fun _ => .inl rfl⟩
  · dsimp only
    rw [hnone]
    rcases hpeer' with hpeer' | hwriter
    · exact hpeer'
    · cases hnone.symm.trans (h.unheard peer' (.inr hwriter))
  · rcases mem_append.1 hm with hm | hm
    · exact (mem_filter.1 hm).2
    · split_ifs at hm
      · cases hm
      · rw [mem_singleton.1 hm]
        rfl

theorem emit (h : Kept v p) (hwriter : v.writer = .idle) {m : OutMsg}
    {queue : List OutMsg} (hqueue : v.queue = m :: queue) :
    Kept { v with queue, writer := .writing } { p with sent := p.sent ++ [m] } := by
  have hsame : p.sent ++ [m] ++ queue = p.sent ++ v.queue := by
    rw [append_assoc, hqueue]
    rfl
  refine { h with
    closeLast := hsame ▸ h.closeLast
    unsealed := hsame ▸ h.unsealed
    close := hsame ▸ h.close
    lastWord := fun hheard m' hm' => h.lastWord hheard m' (hqueue ▸ .tail _ hm')
    heard := h.heard_of_writer _ fun _ _ => hwriter ▸ nofun
    unheard := fun peer hpeer => h.unheard peer (.inl (hpeer.resolve_right nofun))
    closing := nofun
    idle := nofun
    out := fun hout => ?_ }
  -- After a Close there would be nothing to write.
  cases hqueue.symm.trans (h.queue_eq_nil (h.out hout).1)

theorem flush (h : Kept v p) (hopen : v.ended = none) (hwriter : v.writer = .writing) :
    Kept { v with writer := .idle } { p with out := p.out || p.endsInClose } :=
  { h with
    heard := h.heard_of_writer _ fun _ _ => hwriter ▸ nofun
    unheard := fun peer hpeer => h.unheard peer (.inl (hpeer.resolve_right nofun))
    closing := nofun
    idle := fun _ _ hclose => or_eq_true_iff.2 (.inr hclose)
    out := fun hout => ⟨(or_eq_true_iff.1 hout).elim (fun hout => (h.out hout).1) id,
      nofun⟩
    ended := fun k hk => by cases hopen.symm.trans hk }

theorem shutting (h : Kept v p) (hopen : v.ended = none) (hwriter : v.writer = .idle)
    (hqueue : v.queue = []) (hpeer : v.peer = some peer) :
    Kept { v with peer := none, writer := .closing peer } p :=
  have hheard := h.unheard peer (.inl hpeer)
  { h with
    heard := fun peer' hpeer' => ⟨(h.heard peer' hpeer').1, (h.heard peer' hpeer').2.1, fun _ => by
      cases hheard.symm.trans hpeer'
      exact .inr rfl⟩
    unheard := fun peer' hpeer' => by
      rcases hpeer' with hpeer' | hw
      · cases hpeer'
      · cases hw
        exact hheard
    closing := fun _ _ _ => h.idle hwriter hopen
      (h.endsInClose_of_sealed hopen (h.isSealed_of_heard hheard) hqueue)
    idle := nofun
    out := fun hout => ⟨(h.out hout).1, nofun⟩ }

theorem install (h : Kept v p) (b : Bool) :
    Kept { v with listening := b }
      { p with
        calls := p.calls ++ if b then v.ended.toList else []
        installs := p.installs + b.toNat } := by
  refine { h with calls := fun k hk => ?_, count := ?_, listening := fun hb => ?_ }
  · rcases mem_append.1 hk with hk | hk
    · exact h.calls k hk
    · split_ifs at hk
      · exact mem_toList.1 hk
      · cases hk
  · dsimp only
    rw [length_append]
    refine add_le_add h.count ?_
    cases b
    · exact le_refl 0
    · cases v.ended
      · exact Nat.zero_le 1
      · exact le_refl 1
  · dsimp only at hb ⊢
    rw [hb]
    exact Nat.succ_pos _

/-- A turn keeps the invariant. -/
theorem turn (h : Kept v p) (hturn : Turn v t v') : Kept v' (p.next t) := by
  cases hturn <;> simp only [Past.next, silent, append_nil, or_none, Bool.or_false, Bool.or_true,
    Bool.false_and, Bool.true_and, toNat_false, add_zero]
  case quiet => exact h
  case stopRead hended => exact { h with heard := fun peer hpeer => ⟨rfl, (h.heard peer hpeer).2⟩ }
  case stopWrite hended => exact h.stopWrite fun hopen => absurd hopen hended
  case accept m data hopen hseal hm => exact h.accept hseal hm
  case sealed payload hopen hseal => exact h.sealed hseal payload
  case hear peer payload hopen hread hpeer => exact h.hear hopen hread hpeer payload
  case emit m queue hopen hwriter hqueue => exact h.emit hwriter hqueue
  case flush hopen hwriter => exact h.flush hopen hwriter
  case finish peer hopen hwriter hqueue hpeer => exact h.shutting hopen hwriter hqueue hpeer
  case report peer hopen hwriter =>
    have hheard := h.unheard peer (.inr hwriter)
    exact h.finish hopen (.inr rfl) (.inr (h.heard peer hheard).1)
      (outcome_of_heard hheard (h.closing _ hwriter hopen) (eq_false_iff.2 fun hs => h.severed hs hopen)).symm
  case sever hopen =>
    refine h.finish hopen (.inl rfl) ?_ (outcome_of_not (.inr (.inr rfl))).symm
    cases hheard : p.heard with
    | none => exact .inl rfl
    | some peer => exact .inr (h.heard peer hheard).1
  case failRead reading hopen hread =>
    have hnone := h.heard_eq_none hread
    exact h.finish hopen (.inl rfl) (.inl hnone) (outcome_of_not (.inl hnone)).symm
  case failWrite hopen hwriter =>
    have hout : p.out = false := by
      rw [← not_eq_true]
      intro hout
      rcases hwriter with hwriter | ⟨_, hqueue⟩
      · exact (h.out hout).2 hwriter
      · exact hqueue (h.queue_eq_nil (h.out hout).1)
    refine h.finish hopen (.inr rfl) ?_ (outcome_of_not (.inr (.inl hout))).symm
    cases hheard : p.heard with
    | none => exact .inl rfl
    | some peer => exact .inr (h.heard peer hheard).1
  case install b =>
    exact h.install b

end Kept

theorem kept_past {c : Client} {p : Past} (h : Kept c.view p) (as : List Action) :
    Kept (c.run as).1.view (c.past p as) := by
  induction as generalizing c p with
  | nil => exact h
  | cons a as ih => exact ih (h.turn (c.turn_step a))

theorem kept_opened (conn : Source UInt8) : Kept (Client.opened conn).view .empty where
  closeLast := List.Pairwise.nil
  unsealed := fun _ => ⟨fun m hm => (not_mem_nil hm).elim, rfl⟩
  close := nofun
  heard := nofun
  unheard := fun _ hpeer => by rcases hpeer with hpeer | hpeer <;> cases hpeer
  lastWord := fun _ m hm => nomatch hm
  closing := nofun
  idle := nofun
  out := nofun
  severed := nofun
  ended := nofun
  calls := fun k hk => nomatch hk
  count := Nat.le_refl 0
  listening := nofun

/-! ## After a Close is recorded -/

theorem Turn.of_sealed {v v' : View} {t : Trace} (h : Turn v t v') (hseal : v.isSealed) :
    v'.isSealed ∧ t.accepted = [] ∧ (t.sent ++ v'.queue).Sublist v.queue := by
  cases h with
  | quiet | stopRead | stopWrite | finish | install | flush =>
    exact ⟨hseal, rfl, List.Sublist.refl _⟩
  | report | sever | failRead | failWrite => exact ⟨hseal, rfl, nil_sublist _⟩
  | accept m data hopen hunseal | sealed payload hopen hunseal => cases hseal.symm.trans hunseal
  | hear peer payload hopen hread hpeer =>
    refine ⟨rfl, rfl, ?_⟩
    rw [hseal, if_pos rfl, append_nil]
    exact filter_sublist
  | emit m queue hopen hwriter hqueue =>
    rw [hqueue]
    exact ⟨hseal, rfl, List.Sublist.refl _⟩

section

variable (events events' : List Event)

theorem sentFrames_append : sentFrames (events ++ events') = sentFrames events ++ sentFrames events' :=
  filterMap_append

theorem acceptedData_append :
    acceptedData (events ++ events') = acceptedData events ++ acceptedData events' :=
  filterMap_append

theorem closeCalls_append : closeCalls (events ++ events') = closeCalls events ++ closeCalls events' :=
  filterMap_append

end

theorem run_of_sealed {c : Client} (hseal : c.shared.closedLocal) (as : List Action) :
    acceptedData (c.run as).2 = [] ∧
      (sentFrames (c.run as).2 ++ (c.run as).1.shared.queue).Sublist c.shared.queue := by
  induction as generalizing c with
  | nil => exact ⟨rfl, List.Sublist.refl _⟩
  | cons a as ih =>
    obtain ⟨hseal', haccepted, hsent⟩ := (c.turn_step a).of_sealed hseal
    obtain ⟨hrest, hsublist⟩ := ih hseal'
    rw [Client.run_cons]
    rw [acceptedData_append, sentFrames_append, hrest, append_nil, append_assoc]
    exact ⟨haccepted, ((List.Sublist.refl _).append hsublist).trans hsent⟩

/-! ## Every interleaving -/

theorem sent_past (c : Client) (p : Past) (as : List Action) :
    (c.past p as).sent = p.sent ++ sentFrames (c.run as).2 := by
  induction as generalizing c p with
  | nil => exact (append_nil _).symm
  | cons a as ih =>
    rw [Client.past, ih, Client.run_cons, sentFrames_append, ← append_assoc]
    rfl

theorem calls_past (c : Client) (p : Past) (as : List Action) :
    (c.past p as).calls = p.calls ++ closeCalls (c.run as).2 := by
  induction as generalizing c p with
  | nil => exact (append_nil _).symm
  | cons a as ih =>
    rw [Client.past, ih, Client.run_cons, closeCalls_append, ← append_assoc]
    rfl

theorem installs_past (c : Client) (p : Past) (as : List Action) :
    (c.past p as).installs = p.installs + as.countP Action.installs := by
  induction as generalizing c p with
  | nil => rfl
  | cons a as ih =>
    rw [Client.past, ih, countP_cons, add_comm (as.countP _), ← add_assoc]
    change p.installs + a.installs.toNat + _ = _
    cases a.installs <;> rfl

/-- What holds of a run from a connection that was opened. -/
structure Orderly (conn : Source UInt8) (as : List Action) : Prop where
  /-- Nothing is sent after a Close, and so there is one at most. -/
  closeLast : ∀ before m after, sentFrames ((Client.opened conn).run as).2 = before ++ m :: after →
    m.isClose → after = []
  /-- After a Close was recorded, of the caller or the peer, no message is accepted, and what is
      sent was queued before. -/
  afterClose : ∀ as₁ as₂, as = as₁ ++ as₂ →
    ((Client.opened conn).run as₁).1.shared.closedLocal ∨
      ((Client.opened conn).past .empty as₁).heard ≠ none →
    acceptedData (((Client.opened conn).run as₁).1.run as₂).2 = [] ∧
      (sentFrames (((Client.opened conn).run as₁).1.run as₂).2).Sublist
        ((Client.opened conn).run as₁).1.shared.queue
  /-- After the Close of the peer only a Close is sent. -/
  afterPeer : ∀ as₁ as₂, as = as₁ ++ as₂ → ((Client.opened conn).past .empty as₁).heard ≠ none →
    ∀ m ∈ sentFrames (((Client.opened conn).run as₁).1.run as₂).2, m.isClose
  /-- A close handler that is installed once is called once at most. -/
  once : as.countP Action.installs ≤ 1 → (closeCalls ((Client.opened conn).run as).2).length ≤ 1
  /-- It is called with what the peer gave exactly if a Close has gone out too, and the caller has
      not ended the connection. -/
  peerCode : ∀ k ∈ closeCalls ((Client.opened conn).run as).2,
    ∀ peer, ((Client.opened conn).past .empty as).heard = some peer →
      (k = peer ↔ ((Client.opened conn).past .empty as).out ∧
        ((Client.opened conn).past .empty as).severed = false)
  /-- Otherwise it is called with 1006. -/
  otherCode : ∀ k ∈ closeCalls ((Client.opened conn).run as).2,
    ((Client.opened conn).past .empty as).heard = some k ∨ k = abnormal

/-- Every interleaving of the calls, the frames that arrive, the errors of the transport and the
    steps of the writer task is orderly. -/
theorem closing_correct (conn : Source UInt8) (as : List Action) : Orderly conn as := by
  have hkept (as : List Action) := kept_past (kept_opened conn) as
  have houtcome : ∀ k ∈ closeCalls ((Client.opened conn).run as).2,
      k = ((Client.opened conn).past .empty as).outcome := fun k hk =>
    (hkept as).ended k ((hkept as).calls k (calls_past _ _ as ▸ hk))
  refine ⟨fun before m after hsent hm => ?_, fun as₁ as₂ _ hclose => ?_, fun as₁ as₂ _ hheard => ?_,
    fun honce => ?_, fun k hk peer hpeer => ?_, fun k hk => ?_⟩
  · have hlast := (pairwise_append.1 (hkept as).closeLast).1
    rw [sent_past, empty, nil_append, hsent] at hlast
    refine eq_nil_iff_forall_not_mem.2 fun m' hm' => ?_
    have hnot := (pairwise_cons.1 (pairwise_append.1 hlast).2.1).1 m' hm'
    cases hm.symm.trans hnot
  · have hseal : ((Client.opened conn).run as₁).1.shared.closedLocal := by
      rcases hclose with hseal | hheard
      · exact hseal
      · obtain ⟨peer, hpeer⟩ := ne_none_iff_exists'.1 hheard
        exact (hkept as₁).isSealed_of_heard hpeer
    obtain ⟨haccepted, hsent⟩ := run_of_sealed hseal as₂
    exact ⟨haccepted, (sublist_append_left _ _).trans hsent⟩
  · obtain ⟨peer, hpeer⟩ := ne_none_iff_exists'.1 hheard
    obtain ⟨-, hsent⟩ := run_of_sealed ((hkept as₁).isSealed_of_heard hpeer) as₂
    intro m hm
    exact (hkept as₁).lastWord hheard m (hsent.subset (mem_append_left _ hm))
  · have hcount := (hkept as).count
    rw [calls_past, installs_past, empty, zero_add] at hcount
    exact le_trans hcount honce
  · rw [houtcome k hk]
    refine ⟨fun heq => ?_, fun h => outcome_of_heard hpeer h.1 h.2⟩
    -- A peer cannot give 1006.
    by_contra hnot
    rw [outcome_of_not (.inr (by
      rw [not_and_or, not_eq_true, not_eq_false] at hnot
      exact hnot))] at heq
    exact ((hkept as).heard peer hpeer).2.1 (heq ▸ rfl)
  rw [houtcome k hk, outcome]
  cases ((Client.opened conn).past .empty as).heard with
  | none => exact .inr rfl
  | some peer =>
    dsimp only
    split_ifs
    · exact .inl rfl
    · exact .inr rfl

/-! ## Two runs -/

/-- The caller aborts after the Close of the peer was answered, and before that is reported. -/
def abortedRun : List Action :=
  [.setHandlers (some ⟨true, true, true⟩), .read, .poll (.ok [0, 0, 0, 0]), .wrote true, .abort]

def closedRun : List Action := [.send (some (.binary [])), .close none none]

def closingPeer : Source UInt8 := ⟨[[0x88, 0x02, 0x03, 0xe8]], .quiet⟩

/-- The client, with handlers, when the peer has closed. -/
def answering (conn : Source UInt8) : Client where
  shared := ⟨⟨true, true, true⟩, [.close [0x03, 0xe8]], true, some (1000, []), 0, false, 1006, []⟩
  reader := ⟨conn, none, [], false⟩
  writer := .idle

namespace Client

variable {c : Client} {f : Frame} {conn : Source UInt8}

theorem step_read_of_run (hread : c.reader.running) (hopen : ¬c.shared.closed)
    (hrun : readFrame.run c.reader.conn = .ok f conn) :
    c.step .read =
      ({ c with
          reader := (Reader.onFrame { c.reader with conn } c.shared f).1
          shared := (Reader.onFrame { c.reader with conn } c.shared f).2.1 },
        (Reader.onFrame { c.reader with conn } c.shared f).2.2) := by
  rw [step, Reader.step_of_running hread hopen, hrun]

theorem hears_of_run (hread : c.reader.running) (hopen : c.shared.closed = false)
    (hrun : readFrame.run c.reader.conn = .ok f conn) :
    c.hears .read = if f.op = .close then (decodeClosePayload f.payload).toOption else none := by
  rw [hears, hread, hopen, hrun]
  rfl

end Client

open Client

theorem exists_step_closingPeer : ∃ conn,
    (step ((opened closingPeer).step (.setHandlers (some ⟨true, true, true⟩))).1
        .read = (answering conn, [.queued (.close [0x03, 0xe8])])) ∧
      hears ((opened closingPeer).step (.setHandlers (some ⟨true, true, true⟩))).1
        .read = some (1000, []) := by
  have hparse : readFrame.parse closingPeer.bytes = .ok ⟨true, .close, [0x03, 0xe8]⟩ [] := rfl
  obtain ⟨conn, hrun, -, -⟩ := Decoder.exists_run_of_parse hparse
  exact ⟨conn, (step_read_of_run rfl Bool.false_ne_true hrun).trans rfl,
    (hears_of_run rfl rfl hrun).trans rfl⟩

/-- A Close of the peer that was received and answered is reported as 1006 after an abort, and a
    message that was accepted before the caller closed is sent after that. -/
theorem aborted_and_closed :
    (((opened closingPeer).past .empty abortedRun).heard = some (1000, []) ∧
      ((opened closingPeer).past .empty abortedRun).out ∧
      closeCalls ((opened closingPeer).run abortedRun).2 = [(1006, [])]) ∧
    ((opened ⟨[], .quiet⟩).run closedRun).1.shared.closedLocal ∧
      sentFrames (((opened ⟨[], .quiet⟩).run closedRun).1.run [.poll (.ok [0, 0, 0, 0])]).2 =
        [.data (.binary [])] := by
  obtain ⟨conn, hstep, hhears⟩ := exists_step_closingPeer
  have hpast : (opened closingPeer).past .empty abortedRun =
      ⟨[.close [0x03, 0xe8]], [(1006, [])], some (1000, []), true, true, 1⟩ := by
    rw [abortedRun, past, past, trace, trace, hstep, hhears]
    rfl
  have hcalls := calls_past (opened closingPeer) .empty abortedRun
  rw [hpast] at hcalls ⊢
  exact ⟨⟨rfl, rfl, hcalls.symm⟩, rfl, rfl⟩

end ZeroProxy.Ws
