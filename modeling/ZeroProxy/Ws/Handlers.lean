import ZeroProxy.Ws.Reading

/-!
# Handlers that are installed late

The reader task runs from the moment the client is opened, and the caller installs its handlers
when it gets to it. A message that is complete before is dropped, unchecked.
-/

namespace ZeroProxy.Ws

open Bytes Http List Text Shared

/-- The messages that the first `n` frames of a connection complete, whatever becomes of them. -/
def completions : Nat → Pending → Source UInt8 → List (Kind × Bytes)
  | 0, _, _ => []
  | n + 1, o, conn =>
    match readFrame.run conn with
    | .ok f conn =>
      match absorb o f with
      | some x => x.complete.toList ++ completions n x.pending conn
      | none => []
    | _ => []

/-- The messages up to the first that is not one. -/
def readable : List (Kind × Bytes) → List Message
  | [] => []
  | (k, b) :: ms =>
    match k.decode b with
    | some m => m :: readable ms
    | none => []

def AllReadable (ms : List (Kind × Bytes)) : Prop := ∀ m ∈ ms, (m.1.decode m.2).isSome

/-- A run in which `i` turns of the reader come before the handlers are installed, and `j` after. -/
def lateHandlers (conn : Source UInt8) (handlers : Handlers) (i j : Nat) : Client × List Event :=
  (Client.opened conn).run
    (List.replicate i .read ++ .setHandlers (some handlers) :: List.replicate j .read)

/-- The handler is called with the messages that the frames complete, in order, up to a text that
    is not UTF-8, which fails the connection. -/
structure Faithful (conn : Source UInt8) (handlers : Handlers) (i j : Nat) : Prop where
  delivered : delivered (lateHandlers conn handlers i j).2 = readable (completions (i + j) none conn)
  failed : ¬AllReadable (completions (i + j) none conn) →
    (lateHandlers conn handlers i j).1.shared.closed ∧
      (lateHandlers conn handlers i j).1.shared.closeCode = 1006

variable {o : Pending} {conn : Source UInt8}

theorem completions_of_ok {conn' : Source UInt8} {f : Frame} {x : Absorbed}
    (hrun : readFrame.run conn = .ok f conn') (hx : absorb o f = some x) (n : Nat) :
    completions (n + 1) o conn = x.complete.toList ++ completions n x.pending conn' := by
  rw [completions, hrun]
  dsimp only
  rw [hx]

/-! ## Turns of the reader -/

/-- The reader task runs, with a message open, on a connection. -/
structure Holding (c : Client) (o : Pending) (conn : Source UInt8) : Prop where
  reader : c.reader = .holding o conn
  notClosed : ¬c.shared.closed
  bounded : Bounded o

/-- The reader task does nothing any more: it has ended, or waits for what does not come. -/
def Stopped (r : Reader) (s : Shared) : Prop :=
  r.running = false ∨ s.closed ∨ readFrame.run r.conn = .cut .quiet

variable {s : Shared}

theorem step_of_stopped {r : Reader} (h : Stopped r s) :
    (r.step s).2 = (s, []) ∧ Stopped (r.step s).1 s := by
  rw [Reader.step]
  split_ifs with hrunning hclosed
  · exact ⟨rfl, h⟩
  · exact ⟨rfl, .inl rfl⟩
  rcases h with h | h | h
  · rw [h] at hrunning
    exact absurd rfl hrunning
  · exact absurd h hclosed
  · rw [h]
    exact ⟨rfl, .inr (.inr h)⟩

variable {c : Client}

theorem run_reads_of_stopped (h : Stopped c.reader c.shared) (n : Nat) :
    (c.run (List.replicate n .read)).1.shared = c.shared ∧
      (c.run (List.replicate n .read)).2 = [] ∧
      Stopped (c.run (List.replicate n .read)).1.reader c.shared := by
  induction n generalizing c with
  | zero => exact ⟨rfl, rfl, h⟩
  | succ n ih =>
    obtain ⟨hstep, hstopped⟩ := step_of_stopped h
    have hc : c.step .read = ({ c with reader := (c.reader.step c.shared).1 }, []) := by
      rw [Client.step, hstep]
    rw [replicate_succ, Client.run_cons, hc]
    exact @ih { c with reader := (c.reader.step c.shared).1 } hstopped

/-- The reader task comes to a stop without a message. -/
structure Ends (s : Shared) (out : Reader × Shared × List Event) : Prop where
  stopped : Stopped out.1 out.2.1
  handlers : out.2.1.handlers = s.handlers
  delivered : delivered out.2.2 = []

theorem ends_fail (r : Reader) (s : Shared) (e : Text) : Ends s (r.fail s e) := by
  rw [Reader.fail, failConnection]
  by_cases hclosed : s.closed
  · rw [if_pos hclosed]
    exact ⟨.inl rfl, rfl, rfl⟩
  · rw [if_neg hclosed, surfaceClose, if_neg hclosed]
    refine ⟨.inl rfl, rfl, ?_⟩
    split_ifs <;> rfl

theorem ends_close {r : Reader} {f : Frame} {peer : Nat × Text} (hop : f.op = .close)
    (hpeer : decodeClosePayload f.payload = .ok peer) : Ends s (r.onFrame s f) := by
  rw [Reader.onFrame, hop]
  rw [hpeer]
  dsimp only
  split_ifs <;> exact ⟨.inl rfl, rfl, rfl⟩

theorem completions_eq_nil
    (h : ∀ f conn', readFrame.run conn = .ok f conn' → absorb o f = none) (n : Nat) :
    completions n o conn = [] := by
  cases n with
  | zero => rfl
  | succ n =>
    rw [completions]
    cases hrun : readFrame.run conn with
    | ok f conn' =>
      dsimp only
      rw [h f conn' hrun]
    | error e | cut tail => rfl

theorem Holding.step_read (h : Holding c o conn) :
    (∃ f conn' x, readFrame.run conn = .ok f conn' ∧ absorb o f = some x ∧ Bounded x.pending ∧
      c.reader.step c.shared = (.holding x.pending conn', c.shared.answer f x.complete)) ∨
    ((∀ n, completions n o conn = []) ∧ Ends c.shared (c.reader.step c.shared)) := by
  have hconn : c.reader.conn = conn := by rw [h.reader]; rfl
  have hstep := Reader.step_of_running (s := c.shared)
    (show c.reader.running by rw [h.reader]; rfl) h.notClosed
  rw [hconn] at hstep
  cases hrun : readFrame.run conn with
  | ok f conn' =>
    have hframe : c.reader.step c.shared = (Reader.holding o conn').onFrame c.shared f := by
      rw [hstep, hrun, h.reader]
      rfl
    have hno : absorb o f = none → ∀ n, completions n o conn = [] := by
      intro hx
      refine completions_eq_nil fun f' _ hf' => ?_
      rw [hrun] at hf'
      cases hf'
      exact hx
    rw [hframe]
    by_cases hclose : f.op = .close ∧ ∃ peer, decodeClosePayload f.payload = .ok peer
    · obtain ⟨hop, peer, hpeer⟩ := hclose
      exact .inr ⟨hno (by rw [absorb, hop]), ends_close hop hpeer⟩
    · obtain ⟨x, hx, hbounded, hout⟩ | ⟨hx, e, hout⟩ := follows_absorb h.bounded
        (fun hop peer hpeer => hclose ⟨hop, peer, hpeer⟩) c.shared conn'
      · exact .inl ⟨f, conn', x, rfl, hx, hbounded, hout⟩
      · rw [hout]
        exact .inr ⟨hno hx, ends_fail _ _ _⟩
  | error e =>
    rw [hstep, hrun]
    refine .inr ⟨completions_eq_nil fun f' _ hf' => ?_, ends_fail _ _ _⟩
    rw [hrun] at hf'
    cases hf'
  | cut tail =>
    rw [hstep, hrun]
    refine .inr ⟨completions_eq_nil fun f' _ hf' => ?_, ?_⟩
    · rw [hrun] at hf'
      cases hf'
    · cases tail with
      | quiet => exact ⟨.inr (.inr (by rw [hconn, hrun])), rfl, rfl⟩
      | closed | broken => exact ends_fail _ _ _

theorem step_read_eq {out : Reader × Shared × List Event} (h : c.reader.step c.shared = out) :
    c.step .read = ({ c with reader := out.1, shared := out.2.1 }, out.2.2) := by
  rw [Client.step, h]

/-! ## Before the handlers are there -/

/-- Where `n` turns of the reader lead, when nobody is told: to a reader that goes on with what
    follows, or to one that has stopped. -/
structure Unheard (c c' : Client) (events : List Event) (o : Pending) (conn : Source UInt8)
    (n : Nat) : Prop where
  delivered : delivered events = []
  handlers : c'.shared.handlers = c.shared.handlers
  next : (∃ o' conn', Holding c' o' conn' ∧
      ∀ m, completions (n + m) o conn = completions n o conn ++ completions m o' conn') ∨
    (Stopped c'.reader c'.shared ∧ ∀ m, completions (n + m) o conn = completions n o conn)

theorem answer_unheard (hno : s.handlers.message = false) (hopen : ¬s.closed)
    (f : Frame) (complete : Option (Kind × Bytes)) :
    Ws.delivered (s.answer f complete).2 = [] ∧
      (s.answer f complete).1.handlers = s.handlers ∧ ¬(s.answer f complete).1.closed := by
  rw [answer.eq_def]
  cases complete with
  | some m =>
    have hdrop : s.deliverMessage m.1.op m.2 = (s, []) := if_pos (by rw [hno]; rfl)
    dsimp only
    rw [hdrop]
    exact ⟨rfl, rfl, hopen⟩
  | none =>
    split_ifs <;> exact ⟨rfl, rfl, hopen⟩

theorem run_reads_unheard (h : Holding c o conn)
    (hno : c.shared.handlers.message = false) (n : Nat) :
    Unheard c (c.run (List.replicate n .read)).1 (c.run (List.replicate n .read)).2 o conn n := by
  induction n generalizing c o conn with
  | zero =>
    refine ⟨rfl, rfl, .inl ⟨o, conn, h, fun m => ?_⟩⟩
    rw [zero_add]
    rfl
  | succ n ih =>
    rw [replicate_succ, Client.run_cons]
    obtain ⟨f, conn', x, hrun, hx, hbounded, hstep⟩ | ⟨hnil, hends⟩ := h.step_read
    · obtain ⟨hdelivered, hhandlers, hopen⟩ := answer_unheard hno h.notClosed f x.complete
      rw [step_read_eq hstep]
      have hnext := @ih x.pending conn' { c with
          reader := .holding x.pending conn', shared := (c.shared.answer f x.complete).1 }
        ⟨rfl, hopen, hbounded⟩ (by rw [hhandlers, hno])
      refine ⟨by rw [delivered_append, hdelivered, hnext.delivered]; rfl,
        hnext.handlers.trans hhandlers, ?_⟩
      have hcompletions := completions_of_ok hrun hx
      obtain ⟨o', conn'', hholding, hm⟩ | ⟨hstopped, hm⟩ := hnext.next
      · refine .inl ⟨o', conn'', hholding, fun m => ?_⟩
        rw [add_right_comm, hcompletions, hcompletions, hm, append_assoc]
      · refine .inr ⟨hstopped, fun m => ?_⟩
        rw [add_right_comm, hcompletions, hcompletions, hm]
    · rw [step_read_eq rfl]
      obtain ⟨hshared, hevents, hstopped⟩ := @run_reads_of_stopped
        { c with reader := (c.reader.step c.shared).1, shared := (c.reader.step c.shared).2.1 }
        hends.stopped n
      refine ⟨by rw [hevents, append_nil]; exact hends.delivered,
        by rw [hshared]; exact hends.handlers, .inr ⟨?_, fun m => ?_⟩⟩
      · rw [hshared]
        exact hstopped
      · rw [hnil, hnil]

/-! ## With the handlers there -/

theorem answer_none (s : Shared) (f : Frame) :
    Ws.delivered (s.answer f none).2 = [] ∧ (s.answer f none).1.handlers = s.handlers ∧
      (s.answer f none).1.closed = s.closed := by
  rw [answer.eq_def]
  split_ifs <;> exact ⟨rfl, rfl, rfl⟩

/-- What the caller sees of `n` turns of the reader, once there is a handler. -/
theorem run_reads_heard (h : Holding c o conn) (hyes : c.shared.handlers.message) (n : Nat) :
    Ws.delivered (c.run (List.replicate n .read)).2 = readable (completions n o conn) ∧
      (¬AllReadable (completions n o conn) → (c.run (List.replicate n .read)).1.shared.closed ∧
          (c.run (List.replicate n .read)).1.shared.closeCode = 1006) := by
  induction n generalizing c o conn with
  | zero => exact ⟨rfl, fun hno => absurd (fun m hm => by cases hm) hno⟩
  | succ n ih =>
    rw [replicate_succ, Client.run_cons]
    obtain ⟨f, conn', x, hrun, hx, hbounded, hstep⟩ | ⟨hnil, hends⟩ := h.step_read
    · rw [step_read_eq hstep, completions_of_ok hrun hx]
      cases hcomplete : x.complete with
      | none =>
        rw [hcomplete] at hstep
        obtain ⟨hdelivered, hhandlers, hclosed⟩ := answer_none c.shared f
        have hnext := @ih x.pending conn' { c with
            reader := .holding x.pending conn', shared := (c.shared.answer f none).1 }
          ⟨rfl, by rw [hclosed]; exact h.notClosed, hbounded⟩ (by rw [hhandlers, hyes])
        refine ⟨?_, hnext.2⟩
        rw [delivered_append, hdelivered]
        exact hnext.1
      | some m =>
        obtain ⟨k, b⟩ := m
        cases hdecode : k.decode b with
        | some m =>
          have hanswer : c.shared.answer f (some (k, b)) = (c.shared, [.message m]) :=
            deliverMessage_of_decode hyes hdecode
          rw [hanswer]
          have hnext := @ih x.pending conn' { c with reader := .holding x.pending conn' }
            ⟨rfl, h.notClosed, hbounded⟩ hyes
          refine ⟨?_, fun hno => hnext.2 fun hall => hno ?_⟩
          · rw [delivered_append]
            simp only [Option.toList_some, singleton_append, readable, hdecode]
            exact congrArg (m :: ·) hnext.1
          · intro m' hm'
            rcases mem_cons.1 hm' with rfl | hm'
            · rw [hdecode]
              rfl
            · exact hall m' hm'
        | none =>
          -- The text is not UTF-8: the connection fails, and no turn of the reader does anything.
          have hanswer : c.shared.answer f (some (k, b)) =
              c.shared.failConnection "invalid UTF-8 in text frame" :=
            deliverMessage_of_not_decode hyes hdecode
          rw [hanswer, failConnection, if_neg h.notClosed, surfaceClose, if_neg h.notClosed]
          obtain ⟨hshared, hevents, -⟩ := @run_reads_of_stopped { c with
              reader := .holding x.pending conn',
              shared := { c.shared with
                closed := true, closeCode := 1006, closeReason := [], queue := [], buffered := 0 } }
            (.inr (.inl rfl)) n
          refine ⟨?_, fun _ => ?_⟩
          · rw [hevents]
            simp only [Option.toList_some, singleton_append, readable, hdecode]
            split_ifs <;> rfl
          · rw [hshared]
            exact ⟨rfl, rfl⟩
    · rw [step_read_eq rfl, hnil]
      obtain ⟨-, hevents, -⟩ := @run_reads_of_stopped
        { c with reader := (c.reader.step c.shared).1, shared := (c.reader.step c.shared).2.1 }
        hends.stopped n
      refine ⟨?_, fun hno => absurd (fun m hm => by cases hm) hno⟩
      rw [hevents, append_nil]
      exact hends.delivered

/-! ## The interleaving -/

def Client.install (c : Client) (handlers : Handlers) : Client :=
  { c with shared := { c.shared with handlers } }

open Client

theorem lateHandlers_eq (conn : Source UInt8) (handlers : Handlers) (i j : Nat) :
    ∃ events, Ws.delivered events = [] ∧ lateHandlers conn handlers i j =
      ((((opened conn).run (List.replicate i .read)).1.install handlers).run
          (List.replicate j .read) |>.1,
        ((opened conn).run (List.replicate i .read)).2 ++ (events ++
          ((((opened conn).run (List.replicate i .read)).1.install handlers).run
            (List.replicate j .read)).2)) := by
  refine ⟨_, ?_, by rw [lateHandlers, run_append]; rfl⟩
  rw [step, call, setHandlers]
  split_ifs <;> rfl

theorem unheard_opened (conn : Source UInt8) (n : Nat) :
    Unheard (.opened conn) ((opened conn).run (List.replicate n .read)).1
      ((opened conn).run (List.replicate n .read)).2 none conn n :=
  run_reads_unheard ⟨rfl, Bool.false_ne_true, bounded_none⟩ rfl n

theorem completions_of_le {i k : Nat} (h : completions i none conn = [])
    (hk : k ≤ i) : completions k none conn = [] := by
  obtain ⟨m, rfl⟩ := Nat.exists_eq_add_of_le hk
  obtain ⟨o', conn', -, hm⟩ | ⟨-, hm⟩ := (unheard_opened conn k).next
  · rw [hm, append_eq_nil_iff] at h
    exact h.1
  · rwa [hm] at h

theorem faithful_of_completions {k : Nat} (h : completions k none conn = [])
    (onClose onError : Bool) (j : Nat) : Faithful conn ⟨true, onClose, onError⟩ k j := by
  have hunheard := unheard_opened conn k
  obtain ⟨events, hevents, hlate⟩ := lateHandlers_eq conn ⟨true, onClose, onError⟩ k j
  have hseen : Ws.delivered (lateHandlers conn ⟨true, onClose, onError⟩ k j).2 =
      Ws.delivered ((((opened conn).run (replicate k .read)).1.install
        ⟨true, onClose, onError⟩).run (replicate j .read)).2 := by
    rw [hlate, delivered_append, delivered_append, hunheard.delivered, hevents]
    rfl
  obtain ⟨o', conn', hholding, hm⟩ | ⟨hstopped, hm⟩ := hunheard.next
  · have hheard : Holding (((opened conn).run (replicate k .read)).1.install
        ⟨true, onClose, onError⟩) o' conn' :=
      ⟨hholding.reader, hholding.notClosed, hholding.bounded⟩
    obtain ⟨hdelivered, hfailed⟩ := run_reads_heard hheard rfl j
    refine ⟨by rw [hseen, hm, h, hdelivered]; rfl, ?_⟩
    rw [hm, h, hlate]
    exact hfailed
  have hidle : Stopped (((opened conn).run (replicate k .read)).1.install
      ⟨true, onClose, onError⟩).reader (((opened conn).run (replicate k .read)).1.install
      ⟨true, onClose, onError⟩).shared := hstopped
  obtain ⟨-, hnone, -⟩ := run_reads_of_stopped hidle j
  refine ⟨by rw [hseen, hm, h, hnone]; rfl, ?_⟩
  rw [hm, h]
  exact fun hno => absurd nofun hno

theorem not_closed_of_complete {n : Nat} (h : completions n none conn = [])
    (hne : completions (n + 1) none conn ≠ []) :
    ¬((opened conn).run (List.replicate (n + 1) .read)).1.shared.closed := by
  obtain ⟨o', conn', hholding, hm⟩ | ⟨-, hm⟩ := (unheard_opened conn n).next
  · rw [hm, h] at hne
    rw [replicate_succ', run_append, run_cons]
    obtain ⟨f, conn'', x, -, -, -, hstep⟩ | ⟨hnil, -⟩ := hholding.step_read
    · rw [step_read_eq hstep]
      exact (answer_unheard (by rw [(unheard_opened conn n).handlers]; rfl) hholding.notClosed f
        x.complete).2.2
    · exact absurd (hnil 1) hne
  · exact absurd ((hm 1).trans h) hne

theorem completions_of_faithful {onClose onError : Bool} {i : Nat}
    (h : ∀ k ≤ i, ∀ j, Faithful conn ⟨true, onClose, onError⟩ k j) :
    completions i none conn = [] := by
  induction i with
  | zero => rfl
  | succ n ih =>
    have hnil := ih fun k hk => h k (Nat.le_succ_of_le hk)
    by_contra hne
    -- The handlers come right after the first message is complete.
    have hopen := not_closed_of_complete hnil hne
    have hfaithful := h (n + 1) (le_refl _) 0
    obtain ⟨events, hevents, hlate⟩ := lateHandlers_eq conn ⟨true, onClose, onError⟩ (n + 1) 0
    have hreadable : readable (completions (n + 1) none conn) = [] := by
      rw [← hfaithful.delivered, hlate, delivered_append, delivered_append, hevents,
        (unheard_opened conn (n + 1)).delivered]
      rfl
    have hall : AllReadable (completions (n + 1) none conn) := by
      by_contra hno
      have hclosed := (hfaithful.failed hno).1
      rw [hlate] at hclosed
      exact hopen hclosed
    cases hc : completions (n + 1) none conn with
    | nil => exact hne hc
    | cons m ms =>
      rw [hc] at hall hreadable
      obtain ⟨m', hm'⟩ := Option.isSome_iff_exists.1 (hall m (.head _))
      rw [readable, hm'] at hreadable
      cases hreadable

/-- The handlers are installed after at most `i` turns of the reader. What the caller sees is right
    if, and only if, the first `i` frames complete no message. -/
theorem faithful_iff (conn : Source UInt8) (onClose onError : Bool) (i : Nat) :
    (∀ k ≤ i, ∀ j, Faithful conn ⟨true, onClose, onError⟩ k j) ↔
      completions i none conn = [] :=
  ⟨completions_of_faithful, fun h _ hk j => faithful_of_completions (completions_of_le h hk) _ _ j⟩

/-- A server that greets at once is not heard, when the reader gets its first turn before the
    handlers are installed. -/
theorem greeting_lost : ¬∀ k ≤ 1, ∀ j,
    Faithful ⟨[[0x81, 0x02, 0x68, 0x69]], .quiet⟩ ⟨true, true, true⟩ k j := by
  intro h
  have hparse : readFrame.parse (Source.bytes ⟨[[0x81, 0x02, 0x68, 0x69]], .quiet⟩) =
      .ok ⟨true, .text, [0x68, 0x69]⟩ [] := rfl
  obtain ⟨conn', hrun, -, -⟩ := Decoder.exists_run_of_parse hparse
  have hnil := completions_of_faithful h
  rw [completions_of_ok hrun rfl] at hnil
  cases hnil

end ZeroProxy.Ws
