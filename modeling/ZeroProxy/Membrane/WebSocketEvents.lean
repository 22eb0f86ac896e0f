import ZeroProxy.Membrane.WebSocket

/-!
# The events of the page's WebSocket

The events that a socket fires, over every interleaving of the page's calls, the reply to the
opening, the messages of the port, the reads of Blobs and the timer.
-/

namespace ZeroProxy.Membrane.WebSocket

open Bytes List Machine Text

variable {s : Socket} {onError : List Call}

/-! ## What a turn can do -/

/-- The socket ended, after the events `errors`. -/
structure Ended (s s' : Socket) (errors : List (ReadyState × Event)) : Prop where
  before : s.closed = false
  closed : s'.closed
  readyState : s'.readyState = .closed
  port : s'.port = false
  only : ∀ p ∈ errors, p.2 = .error
  fired : ∃ code reason clean,
    s'.fired = s.fired ++ errors ++ [(.closed, .close code reason clean)]

theorem ended_finish (h : s.closed = false) (code : Int) (reason : Text) (clean : Bool) :
    Ended s (finish code reason clean s) [] := by
  rw [finish, h, if_neg Bool.false_ne_true]
  exact ⟨h, rfl, rfl, rfl, nofun, code, reason, clean, by rw [append_nil]; rfl⟩

/-- No handler of an error event throws in the turn. -/
def Turn.Calm (t : Turn) : Prop := .throws ∉ t.onError

theorem fail_of_calm (hcalm : .throws ∉ onError) (s : Socket) : fail onError s =
    if s.closed then s else finish 1006 [] false (onError.foldl Socket.call ((abort s).fire .error)) := by
  have htake : onError.takeWhile (· != .throws) = onError :=
    takeWhile_eq_self_iff.2 fun c hc => bne_iff_ne.2 fun h => hcalm (h ▸ hc)
  have hcontains : ¬onError.contains .throws := fun h => hcalm (contains_iff_mem.1 h)
  rw [fail, htake]
  dsimp only
  rw [if_neg hcontains]

theorem ended_fail (h : s.closed = false) (hcalm : .throws ∉ onError) :
    Ended s (fail onError s) [(s.readyState, .error)] := by
  rw [fail_of_calm hcalm, h, if_neg Bool.false_ne_true]
  -- The handlers find the socket after the error event; it ends as their calls left it.
  have hcalls := untouched_calls ((abort s).fire .error) onError
  have habort := untouched_abort s
  have hready : (abort s).readyState = s.readyState := by
    rw [abort]
    split <;> rfl
  have hclosed : (onError.foldl Socket.call ((abort s).fire .error)).closed = false := by
    rw [hcalls.closed]
    exact habort.closed.trans h
  obtain ⟨-, hc, hr, hp, -, code, reason, clean, hf⟩ := ended_finish hclosed 1006 [] false
  refine ⟨h, hc, hr, hp, by simp, code, reason, clean, ?_⟩
  rw [hf, hcalls.fired, append_nil, Socket.fire, hready, habort.fired]

/-- A message event is fired in the turn. -/
def delivers (s : Socket) : Act → Bool
  | .port (.message (.blob _)) => s.port && !s.closed && s.binaryType != .arraybuffer
  | .port (.message _) => s.port && !s.closed
  | .receiveRead i ok => decide (i < s.receiving.length) && ok && !s.closed
  | _ => false

/-- What a turn does to the events and to what they depend on; `asked` if it is a call of `close`. -/
inductive Effect (s s' : Socket) (asked : Bool) : Bool → Prop
  | quiet (hfired : s'.fired = s.fired) (hclosed : s'.closed = s.closed) (hport : s'.port = s.port)
      (hreplied : s.replied → s'.replied)
      (hreceiving : s'.receiving ≠ [] → s.receiving ≠ [] ∨ s.port)
      (hready : s'.readyState = s.readyState ∧ s'.closeGuard = s.closeGuard ∨
        asked ∧ s.readyState ≠ .closing ∧ s.readyState ≠ .closed ∧ s'.readyState = .closing ∧
          s'.closeGuard ≠ none) :
      Effect s s' asked false
  | message (d : Payload) (hopen : s.closed = false) (hsource : s.port ∨ s.receiving ≠ [])
      (hfired : s'.fired = s.fired ++ [(s.readyState, .message d)]) (hclosed : s'.closed = false)
      (hport : s'.port = s.port) (hreplied : s'.replied = s.replied)
      (hreceiving : s'.receiving ≠ [] → s.receiving ≠ [])
      (hready : s'.readyState = s.readyState) (hguard : s'.closeGuard = s.closeGuard) :
      Effect s s' asked true
  | opened (hreply : s.replied = false) (hopen : s.closed = false) (hclosing : s.readyState ≠ .closing)
      (hfired : s'.fired = s.fired ++ [(.opened, .opened)]) (hclosed : s'.closed = false)
      (hreplied : s'.replied) (hready : s'.readyState = .opened) (hport : s'.port) :
      Effect s s' asked false
  | ended (errors : List (ReadyState × Event)) (h : Ended s s' errors) : Effect s s' asked false

theorem Effect.fired {s' : Socket} {a b : Bool} (he : Effect s s' a b) : ∃ new, s'.fired = s.fired ++ new ∧
    ∀ r e, (r, e) ∈ new → (e = .opened → s.closed = false ∧ s.readyState ≠ .closing) ∧
      ∀ d, e = .message d → b ∧ r = s.readyState ∧ s.closed = false ∧
        (s.port ∨ s.receiving ≠ []) := by
  cases he with
  | quiet hfired => exact ⟨[], by rw [hfired, append_nil], nofun⟩
  | message d hopen hsource hfired =>
    refine ⟨_, hfired, fun r e he => ?_⟩
    cases mem_singleton.1 he
    exact ⟨nofun, fun _ _ => ⟨rfl, rfl, hopen, hsource⟩⟩
  | opened _ hopen hclosing hfired =>
    refine ⟨_, hfired, fun r e he => ?_⟩
    cases mem_singleton.1 he
    exact ⟨fun _ => ⟨hopen, hclosing⟩, nofun⟩
  | ended errors hend =>
    obtain ⟨code, reason, clean, hfired⟩ := hend.fired
    refine ⟨_, by rw [hfired, append_assoc], fun r e he => ?_⟩
    rcases mem_append.1 he with he | he
    · cases hend.only _ he
      exact ⟨nofun, nofun⟩
    · cases mem_singleton.1 he
      exact ⟨nofun, nofun⟩

section Calm

variable {a : Bool} (hcalm : .throws ∉ onError)

include hcalm

theorem effect_fail {s₀ : Socket} (hfired : s₀.fired = s.fired) (hclosed : s₀.closed = s.closed)
    (hport : s.closed → s₀.port = s.port)
    (hreplied : s.replied → s₀.replied)
    (hreceiving : s₀.receiving ≠ [] → s.receiving ≠ [])
    (hready : s₀.readyState = s.readyState) (hguard : s₀.closeGuard = s.closeGuard) :
    Effect s (fail onError s₀) a false := by
  cases h : s.closed with
  | false =>
    obtain ⟨hb, hc, hr, hp, he, hf⟩ := ended_fail (hclosed.trans h) hcalm
    rw [hfired] at hf
    exact .ended _ ⟨h, hc, hr, hp, he, hf⟩
  | true =>
    rw [fail, hclosed.trans h]
    exact .quiet hfired hclosed (hport h) hreplied (fun h' => .inl (hreceiving h'))
      (.inl ⟨hready, hguard⟩)

theorem effect_onReply (hreplied : s.replied = false) (r : Reply) :
    Effect s (onReply onError { s with replied := true } r) a false := by
  cases r with
  | rejected =>
    rw [onReply]
    exact effect_fail hcalm rfl rfl (fun _ => rfl) (fun _ => rfl) id rfl rfl
  | resolved port protocol =>
    by_cases hlate : s.closed ∨ s.readyState = .closing
    · -- A late stream is given up.
      rw [onReply, if_pos hlate]
      cases port <;> exact .quiet rfl rfl rfl (fun _ => rfl) .inl (.inl ⟨rfl, rfl⟩)
    rw [onReply, if_neg hlate]
    rw [not_or, Bool.not_eq_true] at hlate
    obtain ⟨hclosed, hclosing⟩ := hlate
    dsimp only
    have hport (h : s.closed) : port = s.port :=
      absurd (hclosed.symm.trans h) Bool.false_ne_true
    split
    · exact effect_fail hcalm rfl rfl hport (fun _ => rfl) id rfl rfl
    · cases port with
      | false =>
        exact effect_fail hcalm rfl rfl hport (fun _ => rfl) id rfl rfl
      | true => exact .opened hreplied hclosed hclosing rfl hclosed rfl rfl rfl

omit hcalm in
theorem delivers_port_of_closed (h : s.closed ∨ s.port = false) (m : PortMessage) :
    delivers s (.port m) = false := by
  cases m with
  | message d => cases d <;> rcases h with h | h <;> simp [delivers, h]
  | error | close code reason | senddrained bytes => rfl

theorem effect_onmessage (hport : s.port) (m : PortMessage) :
    Effect s (onmessage onError s m) a (delivers s (.port m)) := by
  unfold onmessage
  by_cases hclosed : s.closed
  · rw [if_pos hclosed, delivers_port_of_closed (.inl hclosed)]
    exact .quiet rfl rfl rfl id .inl (.inl ⟨rfl, rfl⟩)
  rw [if_neg hclosed]
  rw [Bool.not_eq_true] at hclosed
  have hfires (d : Payload) : Effect s (s.fire (.message d)) a true :=
    .message d hclosed (.inl hport) rfl hclosed rfl rfl id rfl rfl
  cases m with
  | message d =>
    cases d with
    | text t | buffer b => simpa [delivers, hport, hclosed] using hfires _
    | blob b =>
      dsimp only
      by_cases hbinary : s.binaryType = .arraybuffer
      · -- The message waits for the bytes of the Blob.
        have hdelivers : delivers s (.port (.message (.blob b))) = false := by
          simp [delivers, hbinary]
        rw [hdelivers, if_pos hbinary]
        exact .quiet rfl rfl rfl id (fun _ => .inr hport) (.inl ⟨rfl, rfl⟩)
      · have hdelivers : delivers s (.port (.message (.blob b))) := by
          simp [delivers, hbinary, hport, hclosed]
        rw [hdelivers, if_neg hbinary]
        exact hfires _
  | error => exact effect_fail hcalm rfl rfl (fun _ => rfl) id id rfl rfl
  | close code reason => exact .ended _ (ended_finish hclosed code reason _)
  | senddrained bytes => exact .quiet rfl rfl rfl id .inl (.inl ⟨rfl, rfl⟩)

theorem effect_onSendRead (i : Nat) (ok : Bool) :
    Effect s (onSendRead onError s i ok) a false := by
  rw [onSendRead]
  split
  · exact .quiet rfl rfl rfl id .inl (.inl ⟨rfl, rfl⟩)
  rename_i call b _
  cases ok with
  | false =>
    exact effect_fail hcalm rfl rfl (fun _ => rfl) id id rfl rfl
  | true =>
    rw [if_neg nofun]
    split <;> exact .quiet rfl rfl rfl id .inl (.inl ⟨rfl, rfl⟩)

theorem effect_onReceiveRead (i : Nat) (ok : Bool) :
    Effect s (onReceiveRead onError s i ok) a (delivers s (.receiveRead i ok)) := by
  rw [onReceiveRead, delivers]
  cases hi : s.receiving[i]? with
  | none =>
    have hlt : ¬i < s.receiving.length := not_lt.2 (getElem?_eq_none_iff.1 hi)
    rw [decide_eq_false hlt]
    exact .quiet rfl rfl rfl id .inl (.inl ⟨rfl, rfl⟩)
  | some b =>
    have hlt : i < s.receiving.length := (List.getElem?_eq_some_iff.1 hi).1
    have hne : s.receiving ≠ [] := ne_nil_of_length_pos (Nat.zero_lt_of_lt hlt)
    rw [decide_eq_true hlt]
    dsimp only
    cases ok with
    | false =>
      exact effect_fail hcalm rfl rfl (fun _ => rfl) id (fun _ => hne) rfl rfl
    | true =>
      rw [if_neg nofun]
      by_cases hclosed : s.closed
      · have hdelivers : (true && true && !s.closed) = false := by rw [hclosed]; rfl
        rw [if_pos hclosed, hdelivers]
        exact .quiet rfl rfl rfl id (fun _ => .inl hne) (.inl ⟨rfl, rfl⟩)
      · rw [Bool.not_eq_true] at hclosed
        have hdelivers : (true && true && !s.closed) := by rw [hclosed]; rfl
        rw [if_neg (by rw [hclosed]; exact Bool.false_ne_true), hdelivers]
        exact .message (.buffer b) hclosed (.inr hne) rfl hclosed rfl rfl (fun _ => hne) rfl rfl

theorem effect_onTimer : Effect s (onTimer onError s) a false := by
  rw [onTimer]
  split
  · exact .quiet rfl rfl rfl id .inl (.inl ⟨rfl, rfl⟩)
  · exact effect_fail hcalm rfl rfl (fun _ => rfl) id id rfl rfl
  cases hclosed : s.closed with
  | true => exact .quiet rfl rfl rfl id .inl (.inl ⟨rfl, rfl⟩)
  | false =>
    have habort := untouched_abort s
    obtain ⟨-, hc, hr, hp, he, hf⟩ := ended_finish (habort.closed.trans hclosed) 1006 [] false
    rw [habort.fired] at hf
    exact .ended _ ⟨hclosed, hc, hr, hp, he, hf⟩

end Calm

/-- The turn is a call of `close` with valid arguments. -/
def Turn.asksClose (t : Turn) : Bool :=
  match t.act with
  | .call c => c.asksClose
  | _ => false

theorem step_effect (s : Socket) {t : Turn} (hcalm : t.Calm) :
    Effect s (step s t) t.asksClose (delivers s t.act) := by
  obtain ⟨act, onError⟩ := t
  cases act with
  | call c =>
    have h := untouched_call s c
    exact .quiet h.fired h.closed h.port (fun h' => h.replied.trans h')
      (fun h' => .inl (h.receiving ▸ h')) (readyState_call s c)
  | reply r =>
    cases hreplied : s.replied with
    | true =>
      have hstep : step s ⟨.reply r, onError⟩ = s := if_pos hreplied
      rw [hstep]
      exact .quiet rfl rfl rfl id .inl (.inl ⟨rfl, rfl⟩)
    | false =>
      have hstep : step s ⟨.reply r, onError⟩ = onReply onError { s with replied := true } r :=
        if_neg (by rw [hreplied]; exact Bool.false_ne_true)
      rw [hstep]
      exact effect_onReply hcalm hreplied r
  | port m =>
    cases hport : s.port with
    | true =>
      have hstep : step s ⟨.port m, onError⟩ = onmessage onError s m := if_pos hport
      rw [hstep]
      exact effect_onmessage hcalm hport m
    | false =>
      have hstep : step s ⟨.port m, onError⟩ = s :=
        if_neg (by rw [hport]; exact Bool.false_ne_true)
      rw [hstep, delivers_port_of_closed (.inr hport)]
      exact .quiet rfl rfl rfl id .inl (.inl ⟨rfl, rfl⟩)
  | sendRead i ok => exact effect_onSendRead hcalm i ok
  | receiveRead i ok => exact effect_onReceiveRead hcalm i ok
  | timer => exact effect_onTimer hcalm
  | caught => exact effect_fail hcalm rfl rfl (fun _ => rfl) id id rfl rfl

/-! ## The events of a run -/

/-- The events so far. -/
def Socket.events (s : Socket) : List Event := s.fired.map Prod.snd

open Socket

def Event.isClose : Event → Bool
  | .close _ _ _ => true
  | _ => false

/-- What a socket has told the page: nothing; that it opened, and messages; or that it ended. -/
inductive Told : Bool → List Event → Prop
  | nothing : Told false []
  | talking (ms : List Event) (hms : ∀ e ∈ ms, ∃ d, e = .message d) : Told false (.opened :: ms)
  | ended (before errors : List Event) (code : Int) (reason : Text) (clean : Bool)
      (hbefore : Told false before) (herrors : ∀ e ∈ errors, e = .error) :
      Told true (before ++ errors ++ [.close code reason clean])

variable {l : List Event}

theorem Told.message (h : Told false l) (hl : l ≠ []) (d : Payload) :
    Told false (l ++ [.message d]) := by
  cases h with
  | nothing => exact absurd rfl hl
  | talking ms hms =>
    refine .talking _ fun e he => ?_
    rcases mem_append.1 he with he | he
    · exact hms e he
    · exact ⟨d, mem_singleton.1 he⟩

variable {b : Bool}

theorem Told.opened_notMem_tail (h : Told b l) : .opened ∉ l.tail := by
  have hlive {l : List Event} (h : Told false l) : .opened ∉ l.tail := by
    cases h with
    | nothing => exact nofun
    | talking ms hms =>
      intro hmem
      obtain ⟨d, hd⟩ := hms _ hmem
      cases hd
  cases h with
  | nothing => exact hlive .nothing
  | talking ms hms => exact hlive (.talking ms hms)
  | ended before errors code reason clean hbefore herrors =>
    have hrest : .opened ∉ errors ++ [.close code reason clean] := by
      intro hmem
      rcases mem_append.1 hmem with he | he
      · cases herrors _ he
      · cases mem_singleton.1 he
    rw [append_assoc]
    cases before with
    | nil => exact fun hmem => hrest (mem_of_mem_tail hmem)
    | cons e before =>
      intro hmem
      rw [cons_append] at hmem
      exact (mem_append.1 hmem).elim (hlive hbefore) hrest

theorem Told.isClose (h : Told b l) : ∃ live, (∀ e ∈ live, e.isClose = false) ∧
      (b = false ∧ l = live ∨ b ∧ ∃ e, e.isClose ∧ l = live ++ [e]) := by
  have hlive {l : List Event} (h : Told false l) : ∀ e ∈ l, e.isClose = false := by
    cases h with
    | nothing => exact nofun
    | talking ms hms =>
      refine forall_mem_cons.2 ⟨rfl, fun e he => ?_⟩
      obtain ⟨d, rfl⟩ := hms e he
      rfl
  cases h with
  | nothing => exact ⟨[], nofun, .inl ⟨rfl, rfl⟩⟩
  | talking ms hms => exact ⟨_, hlive (.talking ms hms), .inl ⟨rfl, rfl⟩⟩
  | ended before errors code reason clean hbefore herrors =>
    refine ⟨before ++ errors, fun e he => ?_, .inr ⟨rfl, _, rfl, rfl⟩⟩
    rcases mem_append.1 he with he | he
    · exact hlive hbefore e he
    · rw [herrors e he]
      rfl

/-- What holds of a socket at any time. -/
structure Inv (s : Socket) : Prop where
  told : Told s.closed s.events
  closed_iff : s.closed ↔ s.readyState = .closed
  opened : s.readyState = .opened → s.replied
  connecting : s.readyState = .connecting → s.fired = []
  port : s.port → s.fired ≠ [] ∧ s.readyState ≠ .connecting
  receiving : s.receiving ≠ [] → s.fired ≠ [] ∧ s.readyState ≠ .connecting
  /-- A Blob is received by the port. -/
  received : s.closed = false → s.port = false → s.receiving = []
  /-- A closing socket has a timer. -/
  guarded : s.readyState = .closing → s.closeGuard ≠ none

theorem inv_connect (protocols : List Text) : Inv (connect protocols) where
  told := .nothing
  closed_iff := by simp [connect]
  opened := nofun
  connecting _ := rfl
  port := nofun
  receiving h := absurd rfl h
  received _ _ := rfl
  guarded := nofun

variable {s' : Socket} {a : Bool}

theorem Inv.of_effect (h : Inv s) (he : Effect s s' a b) : Inv s' := by
  cases he with
  | quiet hfired hclosed hport hreplied hreceiving hready =>
    have hback : s'.readyState = .connecting → s.readyState = .connecting := by
      intro hc
      rcases hready with ⟨hr, -⟩ | ⟨-, -, -, hr, -⟩
      · exact hr ▸ hc
      · cases hr.symm.trans hc
    have hforth (hne : s.readyState ≠ .connecting) : s'.readyState ≠ .connecting :=
      fun hc => hne (hback hc)
    refine ⟨?_, ?_, fun ho => ?_, fun hc => hfired.trans (h.connecting (hback hc)),
      fun hp => ?_, fun hr => ?_, fun hc hp => ?_, fun hc => ?_⟩
    · rw [hclosed, events, hfired]
      exact h.told
    · rw [hclosed, h.closed_iff]
      rcases hready with ⟨hr, -⟩ | ⟨-, -, hne, hr, -⟩
      · rw [hr]
      · exact ⟨fun hc => absurd hc hne, fun hc => nomatch hr.symm.trans hc⟩
    · rcases hready with ⟨hr, -⟩ | ⟨-, -, -, hr, -⟩
      · exact hreplied (h.opened (hr ▸ ho))
      · cases hr.symm.trans ho
    · obtain ⟨hf, hc⟩ := h.port (hport ▸ hp)
      exact ⟨hfired ▸ hf, hforth hc⟩
    · rw [hfired]
      rcases hreceiving hr with hr | hp
      · exact ⟨(h.receiving hr).1, hforth (h.receiving hr).2⟩
      · exact ⟨(h.port hp).1, hforth (h.port hp).2⟩
    · rw [hclosed] at hc
      rw [hport] at hp
      by_contra hne
      exact (hreceiving hne).elim (absurd (h.received hc hp)) fun h' => Bool.false_ne_true (hp.symm.trans h')
    · rcases hready with ⟨hr, hg⟩ | ⟨-, -, -, -, hg⟩
      · rw [hg]
        exact h.guarded (hr ▸ hc)
      · exact hg
  | message d hopen hsource hfired hclosed hport hreplied hreceiving hready hguard =>
    have hsaid : s.fired ≠ [] ∧ s.readyState ≠ .connecting := hsource.elim h.port h.receiving
    have hne : s'.fired ≠ [] ∧ s'.readyState ≠ .connecting := by
      rw [hfired, hready]
      exact ⟨by simp, hsaid.2⟩
    refine ⟨?_, ?_, fun ho => ?_, fun hc => absurd hc hne.2, fun _ => hne, fun _ => hne,
      fun _ hp => by_contra fun hr => hreceiving hr (h.received hopen (hport ▸ hp)),
      fun hc => hguard ▸ h.guarded (hready ▸ hc)⟩
    · rw [hclosed, events, hfired, map_append]
      exact (hopen ▸ h.told).message (mt map_eq_nil_iff.1 hsaid.1) d
    · rw [hclosed, hready, ← h.closed_iff, hopen]
    · rw [hreplied]
      exact h.opened (hready ▸ ho)
  | opened hreply hopen hclosing hfired hclosed hreplied hready hport =>
    -- The reply comes while the socket connects, so nothing was told before.
    have hconnecting : s.readyState = .connecting := by
      cases hr : s.readyState with
      | connecting => rfl
      | opened => cases hreply.symm.trans (h.opened hr)
      | closing => exact absurd hr hclosing
      | closed => cases hopen.symm.trans (h.closed_iff.2 hr)
    rw [h.connecting hconnecting] at hfired
    have hne : s'.fired ≠ [] ∧ s'.readyState ≠ .connecting := by
      rw [hfired, hready]
      exact ⟨nofun, nofun⟩
    refine ⟨?_, ?_, fun _ => hreplied, fun hc => absurd hc hne.2, fun _ => hne, fun _ => hne,
      fun _ hp => (nomatch hport.symm.trans hp), fun hc => nomatch hready.symm.trans hc⟩
    · rw [hclosed, events, hfired]
      exact .talking [] nofun
    · rw [hclosed, hready]
      exact ⟨nofun, nofun⟩
  | ended errors hend =>
    obtain ⟨code, reason, clean, hfired⟩ := hend.fired
    have hne : s'.fired ≠ [] ∧ s'.readyState ≠ .connecting := by
      rw [hfired, hend.readyState]
      exact ⟨by simp, nofun⟩
    refine ⟨?_, ?_, fun ho => (nomatch hend.readyState.symm.trans ho), fun hc => absurd hc hne.2,
      fun _ => hne, fun _ => hne, fun hc => (nomatch hend.closed.symm.trans hc),
      fun hc => nomatch hend.readyState.symm.trans hc⟩
    · rw [hend.closed, events, hfired, map_append, map_append]
      exact .ended _ _ _ _ _ (hend.before ▸ h.told) (forall_mem_map.2 hend.only)
    · rw [hend.closed, hend.readyState]
      exact ⟨fun _ => rfl, fun _ => rfl⟩

theorem inv_run (protocols : List Text) {ts : List Turn} (hcalm : ∀ t ∈ ts, t.Calm) :
    Inv (run step (connect protocols) ts) :=
  run_induction (inv_connect protocols) fun s t ht h => h.of_effect (step_effect s (hcalm t ht))

/-- The events of a run are in order. -/
structure Orderly (s : Socket) (ts : List Turn) : Prop where
  /-- `readyState` never decreases. -/
  readyState : Always step (fun s t => s.readyState.toNat ≤ (step s t).readyState.toNat) s ts
  /-- At most one open event, -/
  opened_once : (run step s ts).events.count .opened ≤ 1
  /-- before any message. -/
  opened_first : ∀ before after d, (run step s ts).events = before ++ .opened :: after →
    .message d ∉ before
  /-- Message events fire only while the socket is open. -/
  message_opened : ∀ r d, (r, .message d) ∈ (run step s ts).fired → r = .opened
  /-- One close event when the socket has ended, -/
  close_once : (run step s ts).events.countP Event.isClose =
    if (run step s ts).readyState = .closed then 1 else 0
  /-- and no event after it. -/
  close_last : ∀ before e after, (run step s ts).events = before ++ e :: after →
    e.isClose → after = []
  /-- A socket that was closed while it was connecting does not open. -/
  cancelled : ∀ before t after code reason, ts = before ++ t :: after →
    (run step s before).readyState = .connecting → t.act = .call (.close code reason) →
    validClose code reason → .opened ∉ (run step s ts).events

/-! ### What holds of every run -/

theorem readyState_of_effect (h : Inv s) (he : Effect s s' a b) :
    s.readyState.toNat ≤ s'.readyState.toNat := by
  cases he with
  | quiet hfired hclosed hport hreplied hreceiving hready =>
    rcases hready with ⟨hr, -⟩ | ⟨-, hclosing, hend, hr, -⟩
    · rw [hr]
    · rw [hr]
      cases hs : s.readyState with
      | connecting | opened => decide
      | closing => exact absurd hs hclosing
      | closed => exact absurd hs hend
  | message d hopen hsource hfired hclosed hport hreplied hreceiving hready hguard => rw [hready]
  | opened hreply hopen hclosing hfired hclosed hreplied hready hport =>
    rw [hready]
    cases hs : s.readyState with
    | connecting | opened => decide
    | closing => exact absurd hs hclosing
    | closed => cases hopen.symm.trans (h.closed_iff.2 hs)
  | ended errors hend =>
    rw [hend.readyState]
    cases s.readyState <;> decide

theorem readyState_always {ts : List Turn} (h : Inv s) (hcalm : ∀ t ∈ ts, t.Calm) :
    Always step (fun s t => s.readyState.toNat ≤ (step s t).readyState.toNat) s ts := by
  induction ts generalizing s with
  | nil => exact always_nil
  | cons t ts ih =>
    obtain ⟨ht, hts⟩ := forall_mem_cons.1 hcalm
    have he := step_effect s ht
    exact ⟨readyState_of_effect h he, ih (h.of_effect he) hts⟩

theorem Told.close_last {before after : List Event} {e : Event}
    (h : Told b (before ++ e :: after)) (he : e.isClose) : after = [] := by
  obtain ⟨live, hlive, ⟨-, hl⟩ | ⟨-, last, -, hl⟩⟩ := h.isClose
  · cases he.symm.trans (hlive e (hl ▸ mem_append_right _ (.head _)))
  rcases eq_nil_or_concat after with rfl | ⟨after', e', rfl⟩
  · rfl
  -- Otherwise the event is one of those before the last.
  rw [concat_eq_append, ← cons_append, ← append_assoc] at hl
  have hmem : e ∈ live := by
    rw [← (append_inj' hl rfl).1]
    exact mem_append_right _ (.head _)
  cases he.symm.trans (hlive e hmem)

theorem Told.opened_first {before after : List Event}
    (h : Told b (before ++ .opened :: after)) : before = [] := by
  cases before with
  | nil => rfl
  | cons e before =>
    exact absurd (mem_append_right _ mem_cons_self) h.opened_notMem_tail

/-- The opening was given up. -/
structure Cancelled (s : Socket) : Prop where
  opened : .opened ∉ s.events
  readyState : s.readyState = .closing ∨ s.readyState = .closed
  inv : Inv s

theorem Cancelled.step (h : Cancelled s) {t : Turn} (hcalm : t.Calm) : Cancelled (step s t) := by
  have he := step_effect s hcalm
  refine ⟨fun hmem => ?_, ?_, h.inv.of_effect he⟩
  · obtain ⟨new, hfired, hnew⟩ := he.fired
    rw [events, hfired, map_append] at hmem
    refine (mem_append.1 hmem).elim h.opened fun hmem => ?_
    obtain ⟨⟨r, e⟩, hp, rfl⟩ := mem_map.1 hmem
    obtain ⟨hopen, hclosing⟩ := (hnew r _ hp).1 rfl
    rcases h.readyState with hr | hr
    · exact hclosing hr
    · cases hopen.symm.trans (h.inv.closed_iff.2 hr)
  -- `readyState` does not decrease.
  have hle := readyState_of_effect h.inv he
  cases hr : (WebSocket.step s t).readyState with
  | closing => exact .inl rfl
  | closed => exact .inr rfl
  | connecting => rcases h.readyState with h' | h' <;> rw [h', hr] at hle <;> exact absurd hle (by decide)
  | opened => rcases h.readyState with h' | h' <;> rw [h', hr] at hle <;> exact absurd hle (by decide)

/-- A message of the port, or the end of the read of a Blob that was received. -/
def Turn.isMessage (t : Turn) : Bool :=
  match t.act with
  | .port (.message _) => true
  | .receiveRead _ ok => ok
  | _ => false

/-- What ends a socket that is closing: the peer's answer, an error, or the timer. -/
def Turn.isEnd (t : Turn) : Bool :=
  match t.act with
  | .port .error => true
  | .port (.close _ _) => true
  | .timer => true
  | _ => false

/-- From a call of `close` on, no message comes before the socket is ended. `asked`: there was such
    a call before. -/
def Settled : Bool → List Turn → Prop
  | _, [] => True
  | asked, t :: ts =>
    (asked → t.isMessage = false) ∧ Settled (if t.isEnd then false else asked || t.asksClose) ts

instance : (asked : Bool) → (ts : List Turn) → Decidable (Settled asked ts)
  | _, [] => isTrue trivial
  | asked, t :: ts =>
    have := instDecidableSettled (if t.isEnd then false else asked || t.asksClose) ts
    inferInstanceAs (Decidable (_ ∧ _))

theorem delivers_eq_false {t : Turn} (h : t.isMessage = false) : delivers s t.act = false := by
  obtain ⟨act, onError⟩ := t
  cases act with
  | port m =>
    cases m with
    | message d => cases h
    | error | close code reason | senddrained bytes => rfl
  | receiveRead i ok =>
    obtain rfl : ok = false := h
    simp [delivers]
  | _ => rfl

/-- No message can come to the socket. -/
structure Deaf (s : Socket) : Prop where
  port : s.port = false
  receiving : s.receiving = []

/-- A socket that is closing waits for its end after a call of `close`, or is deaf. Every message
    event so far was fired while it was open. -/
structure Heard (asked : Bool) (s : Socket) : Prop where
  closing : s.readyState = .closing → asked ∨ Deaf s
  message : ∀ r d, (r, .message d) ∈ s.fired → r = .opened

theorem closed_of_isEnd {t : Turn} (hcalm : t.Calm) (hinv : Inv s) (hend : t.isEnd)
    (hclosing : s.readyState = .closing) : (step s t).closed ∨ Deaf (step s t) := by
  have hopen : s.closed = false := by
    rw [Bool.eq_false_iff, Ne, hinv.closed_iff, hclosing]
    exact nofun
  have hdeaf {m : PortMessage} {o : List Call} (hport : s.port = false) :
      Deaf (step s ⟨.port m, o⟩) := by
    have hstep : step s ⟨.port m, o⟩ = s := if_neg (by rw [hport]; exact Bool.false_ne_true)
    rw [hstep]
    exact ⟨hport, hinv.received hopen hport⟩
  obtain ⟨act, onError⟩ := t
  cases act with
  | timer =>
    left
    change (onTimer onError s).closed
    rw [onTimer]
    cases hguard : s.closeGuard with
    | none => exact absurd hguard (hinv.guarded hclosing)
    | some g =>
      cases g with
      | opening => exact (ended_fail hopen hcalm).closed
      | waiting =>
        dsimp only
        rw [hopen, if_neg Bool.false_ne_true]
        exact (ended_finish ((untouched_abort s).closed.trans hopen) _ _ _).closed
  | port m =>
    cases hport : s.port with
    | false => exact .inr (hdeaf hport)
    | true =>
      left
      have hstep : step s ⟨.port m, onError⟩ = onmessage onError s m := if_pos hport
      rw [hstep]
      unfold onmessage
      rw [hopen, if_neg Bool.false_ne_true]
      cases m with
      | error => exact (ended_fail hopen hcalm).closed
      | close code reason => exact (ended_finish hopen _ _ _).closed
      | message d | senddrained bytes => cases hend
  | _ => cases hend

theorem Deaf.of_effect (h : Deaf s) (hclosing : s'.readyState = .closing)
    (he : Effect s s' a b) : Deaf s' := by
  cases he with
  | quiet hfired hclosed hport hreplied hreceiving hready =>
    refine ⟨hport.trans h.port, ?_⟩
    by_contra hne
    exact (hreceiving hne).elim (absurd h.receiving) fun hp => Bool.false_ne_true (h.port.symm.trans hp)
  | message d hopen hsource hfired hclosed hport hreplied hreceiving hready hguard =>
    exact hsource.elim (fun hp => nomatch h.port.symm.trans hp) (absurd h.receiving)
  | opened hreply hopen hcl hfired hclosed hreplied hready hport => cases hready.symm.trans hclosing
  | ended errors hend => cases hend.readyState.symm.trans hclosing

/-- Only a call of `close` makes a socket close. -/
theorem Effect.asked (he : Effect s s' a b) (hs : s.readyState ≠ .closing)
    (hclosing : s'.readyState = .closing) : a := by
  cases he with
  | quiet hfired hclosed hport hreplied hreceiving hready =>
    rcases hready with ⟨hr, -⟩ | ⟨hasked, -⟩
    · exact absurd (hr.symm.trans hclosing) hs
    · exact hasked
  | message d hopen hsource hfired hclosed hport hreplied hreceiving hready hguard =>
    exact absurd (hready.symm.trans hclosing) hs
  | opened hreply hopen hcl hfired hclosed hreplied hready hport => cases hready.symm.trans hclosing
  | ended errors hend => cases hend.readyState.symm.trans hclosing

theorem not_isEnd_of_asksClose {t : Turn} (h : t.asksClose) : ¬t.isEnd := by
  obtain ⟨act, onError⟩ := t
  cases act with
  | call c => exact Bool.false_ne_true
  | _ => exact absurd h Bool.false_ne_true

theorem Heard.step {asked : Bool} {t : Turn} (h : Heard asked s) (hinv : Inv s) (hcalm : t.Calm)
    (hquiet : asked → t.isMessage = false) :
    Heard (if t.isEnd then false else asked || t.asksClose) (step s t) := by
  have he := step_effect s hcalm
  have hinv' := hinv.of_effect he
  constructor
  · intro hclosing
    by_cases hs : s.readyState = .closing
    · by_cases hend : t.isEnd
      · rw [if_pos hend]
        refine .inr ((closed_of_isEnd hcalm hinv hend hs).resolve_left fun hc => ?_)
        cases (hinv'.closed_iff.1 hc).symm.trans hclosing
      · rw [if_neg hend, Bool.or_eq_true]
        exact (h.closing hs).imp .inl fun hdeaf => hdeaf.of_effect hclosing he
    have hasked := he.asked hs hclosing
    rw [if_neg (not_isEnd_of_asksClose hasked), hasked, Bool.or_true]
    exact .inl rfl
  · intro r d hmem
    obtain ⟨new, hfired, hnew⟩ := he.fired
    rw [hfired] at hmem
    refine (mem_append.1 hmem).elim (h.message r d) fun hmem => ?_
    -- The message is delivered: the socket has opened, has not ended and is not closing.
    obtain ⟨hd, rfl, hopen, hsource⟩ := (hnew r _ hmem).2 d rfl
    have hsaid := hsource.elim hinv.port hinv.receiving
    cases hr : s.readyState with
    | connecting => exact absurd hr hsaid.2
    | opened => rfl
    | closing =>
      rcases h.closing hr with hasked | hdeaf
      · cases hd.symm.trans (delivers_eq_false (hquiet hasked))
      · exact hsource.elim (fun hp => nomatch hdeaf.port.symm.trans hp) (absurd hdeaf.receiving)
    | closed => cases hopen.symm.trans (hinv.closed_iff.2 hr)

/-- In any interleaving without a handler of an error event that throws, the page is told that the
    socket opened, then messages, then how it ended, as far as it came; `readyState` never decreases,
    and is `CLOSED` exactly if the end was told. -/
theorem told_run (protocols : List Text) (ts : List Turn) (hcalm : ∀ t ∈ ts, t.Calm) :
    let s := run step (connect protocols) ts
    Told (s.readyState = .closed) s.events ∧
      Always step (fun s t => s.readyState.toNat ≤ (step s t).readyState.toNat)
        (connect protocols) ts := by
  have hinv := inv_run protocols hcalm
  refine ⟨?_, readyState_always (inv_connect protocols) hcalm⟩
  simpa [← hinv.closed_iff] using hinv.told

/-- The peer ends the connection with an error, and a handler calls `close`. -/
theorem told_run_error : Told true [.opened, .message (.text "hello"), .error, .close 1006 [] false] := by
  have h := (told_run [] [⟨.reply (.resolved true []), []⟩, ⟨.port (.message (.text "hello")), []⟩,
    ⟨.port .error, [.close none none]⟩] (by unfold Turn.Calm; decide)).1
  have hclosed : (run step (connect []) [⟨.reply (.resolved true []), []⟩,
      ⟨.port (.message (.text "hello")), []⟩, ⟨.port .error, [.close none none]⟩]).readyState =
        .closed := by decide
  have hevents : (run step (connect []) [⟨.reply (.resolved true []), []⟩,
      ⟨.port (.message (.text "hello")), []⟩, ⟨.port .error, [.close none none]⟩]).events =
        [.opened, .message (.text "hello"), .error, .close 1006 [] false] := by decide
  change Told (decide _) _ at h
  rwa [hevents, decide_eq_true hclosed] at h

/-- A call of `send` or `close`, or a Blob that was to be posted has been read. -/
def Turn.isSending (t : Turn) : Bool :=
  match t.act with
  | .call (.send _) => true
  | .call (.close _ _) => true
  | .sendRead _ ok => ok
  | _ => false

/-- What an open socket is asked for, in the order of the calls: what was sent before the first
    `close`, and that close. `call` numbers the next call of `send`. -/
def requests : Nat → List Turn → List Post
  | _, [] => []
  | call, t :: ts =>
    match t.act with
    | .call (.send data) => .send call data.content (payloadByteLength data) :: requests (call + 1) ts
    | .call (.close code reason) =>
      if validClose code reason then [closeRequest code reason] else requests call ts
    | _ => requests call ts

def readPost (p : Nat × List UInt8) : Post := .send p.1 (.buffer p.2) p.2.length

/-- Nothing overtakes a Blob that is being read: what is posted at once, and a close, find none,
    and Blobs are read in the order in which they were sent. -/
def InOrder (s : Socket) (t : Turn) : Prop :=
  s.readyState = .opened →
    match t.act with
    | .call (.send (.blob _)) => True
    | .call (.send _) => s.sending = []
    | .call (.close code reason) => validClose code reason → s.sending = []
    | .sendRead i _ => i < s.sending.length → i = 0
    | _ => True

/-- The socket is open, on its port. -/
structure Opened (s : Socket) : Prop where
  readyState : s.readyState = .opened
  port : s.port
  closed : s.closed = false

/-- The socket is open, or it is closing and nothing is to be posted any more. -/
def Posting (s : Socket) : Prop := Opened s ∨ (s.readyState = .closing ∧ s.sending = [])

/-- The Blobs that are being read are numbered in the order in which they were sent. -/
structure Numbered (s : Socket) : Prop where
  lt : ∀ p ∈ s.sending, p.1 < s.calls
  pairwise : s.sending.Pairwise fun p q => p.1 < q.1

/-- What is posted in the end if nothing is overtaken: what was posted, the Blobs that are being
    read, and what is still to be asked for. -/
def due (s : Socket) (ts : List Turn) : List Post :=
  s.posted ++ s.sending.map readPost ++ if s.readyState = .opened then requests s.calls ts else []

theorem sendRead_cases (s : Socket) (i : Nat) (onError : List Call) :
    (step s ⟨.sendRead i true, onError⟩ = s ∧ s.sending.length ≤ i) ∨
    ∃ p, s.sending[i]? = some p ∧
      ((s.readyState = .opened ∧ s.port ∧ step s ⟨.sendRead i true, onError⟩ =
        { s with sending := s.sending.eraseIdx i, posted := s.posted ++ [readPost p] }) ∨
      ((s.readyState ≠ .opened ∨ s.port = false) ∧ step s ⟨.sendRead i true, onError⟩ = { s with
          sending := s.sending.eraseIdx i, bufferedAmount := s.bufferedAmount - p.2.length })) := by
  simp only [step_sendRead, onSendRead]
  cases hi : s.sending[i]? with
  | none => exact .inl ⟨rfl, getElem?_eq_none_iff.1 hi⟩
  | some p =>
    refine .inr ⟨p, rfl, ?_⟩
    dsimp only
    by_cases h : s.readyState = .opened ∧ s.port
    · exact .inl ⟨h.1, h.2, by rw [if_pos h]; rfl⟩
    · rw [if_neg h]
      rw [not_and_or, Bool.not_eq_true] at h
      exact .inr ⟨h, rfl⟩

variable {t : Turn}

theorem isSending_cases (h : t.isSending) : (∃ data onError, t = ⟨.call (.send data), onError⟩) ∨
    (∃ code reason onError, t = ⟨.call (.close code reason), onError⟩) ∨
    ∃ i onError, t = ⟨.sendRead i true, onError⟩ := by
  obtain ⟨act, onError⟩ := t
  cases act with
  | call c =>
    cases c with
    | send data => exact .inl ⟨data, onError, rfl⟩
    | close code reason => exact .inr (.inl ⟨code, reason, onError, rfl⟩)
    | binaryType t => cases h
    | throws => cases h
  | sendRead i ok =>
    obtain rfl : ok := h
    exact .inr (.inr ⟨i, onError, rfl⟩)
  | _ => cases h

theorem Numbered.step (h : Numbered s) (ht : t.isSending) : Numbered (step s t) := by
  rcases isSending_cases ht with ⟨data, o, rfl⟩ | ⟨code, reason, o, rfl⟩ | ⟨i, o, rfl⟩
  · rw [step_call]
    rcases send_cases data s with ⟨hs, -⟩ | ⟨hs, -⟩ | ⟨-, -, b, -, hs⟩ | ⟨-, -, -, hs⟩ <;> rw [hs]
    · exact h
    · exact ⟨h.lt, h.pairwise⟩
    · constructor
      · intro p hp
        rcases mem_append.1 hp with hp | hp
        · exact Nat.lt_succ_of_lt (h.lt p hp)
        · rw [mem_singleton.1 hp]
          exact Nat.lt_succ_self _
      · refine pairwise_append.2 ⟨h.pairwise, pairwise_singleton _ _, fun p hp q hq => ?_⟩
        rw [mem_singleton.1 hq]
        exact h.lt p hp
    · exact ⟨fun p hp => Nat.lt_succ_of_lt (h.lt p hp), h.pairwise⟩
  · rw [step_call]
    rcases close_cases code reason s with ⟨hs, -⟩ | ⟨-, -, -, -, -, hs⟩ | ⟨-, -, -, -, -, hs⟩ <;>
      rw [hs] <;> exact ⟨h.lt, h.pairwise⟩
  · have herase : Numbered { s with sending := s.sending.eraseIdx i } :=
      ⟨fun p hp => h.lt p (mem_of_mem_eraseIdx hp), h.pairwise.sublist (eraseIdx_sublist _ _)⟩
    rcases sendRead_cases s i o with ⟨hs, -⟩ | ⟨p, -, ⟨-, -, hs⟩ | ⟨-, hs⟩⟩ <;> rw [hs]
    · exact h
    · exact ⟨herase.lt, herase.pairwise⟩
    · exact ⟨herase.lt, herase.pairwise⟩

theorem posted_step (ht : t.isSending) : s.posted <+: (step s t).posted := by
  have hsame {s₁ s₂ : Socket} (hs : s₁ = s₂) (h : s₂.posted = s.posted) : s.posted <+: s₁.posted :=
    ⟨[], by rw [hs, h, append_nil]⟩
  rcases isSending_cases ht with ⟨data, o, rfl⟩ | ⟨code, reason, o, rfl⟩ | ⟨i, o, rfl⟩
  · rcases send_cases data s with ⟨hs, -⟩ | ⟨hs, -⟩ | ⟨-, -, b, -, hs⟩ | ⟨-, -, -, hs⟩
    · exact hsame hs rfl
    · exact hsame hs rfl
    · exact hsame hs rfl
    · exact ⟨_, (congrArg Socket.posted hs).symm⟩
  · rcases close_cases code reason s with ⟨hs, -⟩ | ⟨-, -, -, -, -, hs⟩ | ⟨-, -, -, -, -, hs⟩
    · exact hsame hs rfl
    · exact hsame hs rfl
    · exact ⟨_, (congrArg Socket.posted hs).symm⟩
  · rcases sendRead_cases s i o with ⟨hs, -⟩ | ⟨p, -, ⟨-, -, hs⟩ | ⟨-, hs⟩⟩
    · exact hsame hs rfl
    · exact ⟨_, (congrArg Socket.posted hs).symm⟩
    · exact hsame hs rfl

variable {ts : List Turn}

theorem posted_run (h : ∀ t ∈ ts, t.isSending) : s.posted <+: (run step s ts).posted :=
  @run_induction _ _ step s ts (fun s' => s.posted <+: s'.posted) prefix_rfl
    fun _ t ht hs => hs.trans (posted_step (h t ht))

theorem Posting.of_closing (hr : s.readyState = .closing) (hsending : s.sending = [])
    (ht : t.isSending) :
    (step s t).readyState = .closing ∧ (step s t).sending = [] ∧
      (step s t).posted = s.posted := by
  rcases isSending_cases ht with ⟨data, o, rfl⟩ | ⟨code, reason, o, rfl⟩ | ⟨i, o, rfl⟩
  · rw [step_call]
    rcases send_cases data s with ⟨hs, -⟩ | ⟨hs, -⟩ | ⟨ho, -⟩ | ⟨ho, -⟩
    · rw [hs]
      exact ⟨hr, hsending, rfl⟩
    · rw [hs]
      exact ⟨hr, hsending, rfl⟩
    · cases ho.symm.trans hr
    · cases ho.symm.trans hr
  · rw [step_call]
    rcases close_cases code reason s with ⟨hs, -⟩ | ⟨-, -, hc, -⟩ | ⟨-, -, hc, -⟩
    · rw [hs]
      exact ⟨hr, hsending, rfl⟩
    · exact absurd hr hc
    · exact absurd hr hc
  · rcases sendRead_cases s i o with ⟨hs, -⟩ | ⟨p, hp, -⟩
    · rw [hs]
      exact ⟨hr, hsending, rfl⟩
    · rw [hsending] at hp
      cases hp

/-- A turn in which nothing is overtaken changes nothing of what is due. -/
theorem due_step (h : Posting s) (ht : t.isSending) (horder : InOrder s t)
    (ts : List Turn) : Posting (step s t) ∧ due (step s t) ts = due s (t :: ts) := by
  rcases h with h | ⟨hr, hsending⟩
  · obtain ⟨hr, hport, hclosed⟩ := h
    have hnot : ¬(s.readyState ≠ .opened ∨ s.port = false) := by simp [hr, hport]
    have horder := horder hr
    rcases isSending_cases ht with ⟨data, o, rfl⟩ | ⟨code, reason, o, rfl⟩ | ⟨i, o, rfl⟩
    · rw [step_call]
      rcases send_cases data s with ⟨-, hc⟩ | ⟨-, hc⟩ | ⟨-, -, b, rfl, hs⟩ | ⟨-, -, hblob, hs⟩
      · cases hc.symm.trans hr
      · exact absurd hc hnot
      · -- The Blob waits behind those that are being read.
        rw [hs]
        refine ⟨.inl ⟨hr, hport, hclosed⟩, ?_⟩
        simp only [due, hr, map_append, append_assoc]
        rfl
      have hsending : s.sending = [] := by
        cases data with
        | blob b => exact absurd rfl (hblob b)
        | text t | buffer b => exact horder
      rw [hs]
      refine ⟨.inl ⟨hr, hport, hclosed⟩, ?_⟩
      simp only [due, hr, hsending, append_assoc]
      rfl
    · rw [step_call]
      rcases close_cases code reason s with ⟨hs, hc⟩ | ⟨-, -, -, -, hp, -⟩ | ⟨hv, -, -, -, -, hs⟩
      · have hv : validClose code reason = false := by
          rcases hc with hc | hc | hc | hc
          · exact hc
          · cases hclosed.symm.trans hc
          · cases hr.symm.trans hc
          · cases hr.symm.trans hc
        rw [hs]
        refine ⟨.inl ⟨hr, hport, hclosed⟩, ?_⟩
        simp [due, requests, hv]
      · cases hport.symm.trans hp
      · have hsending : s.sending = [] := horder hv
        rw [hs]
        refine ⟨.inr ⟨rfl, hsending⟩, ?_⟩
        simp [due, hr, requests, hv, hsending]
    · rcases sendRead_cases s i o with ⟨hs, hi⟩ | ⟨p, hp, ⟨-, -, hs⟩ | ⟨hc, -⟩⟩
      · rw [hs]
        exact ⟨.inl ⟨hr, hport, hclosed⟩, rfl⟩
      · -- The first of the Blobs that are being read.
        obtain rfl : i = 0 := horder (List.getElem?_eq_some_iff.1 hp).1
        cases hsending : s.sending with
        | nil =>
          rw [hsending] at hp
          cases hp
        | cons q rest =>
          obtain rfl : q = p := by
            rw [hsending] at hp
            exact Option.some.inj hp
          rw [hs, hsending]
          refine ⟨.inl ⟨hr, hport, hclosed⟩, ?_⟩
          simp only [due, hsending, append_assoc]
          rfl
      · exact absurd hc hnot
  · obtain ⟨hr', hsending', hposted⟩ := Posting.of_closing hr hsending ht
    refine ⟨.inr ⟨hr', hsending'⟩, ?_⟩
    simp only [due, hr, hr', hsending, hsending', hposted]
    rfl

theorem overtakes (h : Opened s) (hnum : Numbered s) (ht : t.isSending)
    (horder : ¬InOrder s t) (ts : List Turn) :
    ∃ x y rest, (step s t).posted = s.posted ++ [x] ∧ due s (t :: ts) = s.posted ++ y :: rest ∧
      x ≠ y := by
  obtain ⟨hr, hport, hclosed⟩ := h
  -- Something is being read, and it is due next.
  have hdue {q : Nat × List UInt8} {rest : List (Nat × List UInt8)} (hq : s.sending = q :: rest) :
      ∃ tail, due s (t :: ts) = s.posted ++ readPost q :: tail := by
    refine ⟨rest.map readPost ++
      if s.readyState = .opened then requests s.calls (t :: ts) else [], ?_⟩
    rw [due, hq, map_cons, append_assoc, cons_append]
  have hnot : ¬(s.readyState ≠ .opened ∨ s.port = false) := by simp [hr, hport]
  rw [InOrder, Classical.not_imp] at horder
  replace horder := horder.2
  rcases isSending_cases ht with ⟨data, o, rfl⟩ | ⟨code, reason, o, rfl⟩ | ⟨i, o, rfl⟩
  · have hsending : s.sending ≠ [] ∧ ∀ b, data ≠ .blob b := by
      cases data with
      | blob b => exact absurd trivial horder
      | text t | buffer b => exact ⟨horder, nofun⟩
    obtain ⟨q, rest, hq⟩ := exists_cons_of_ne_nil hsending.1
    obtain ⟨tail, htail⟩ := hdue hq
    rcases send_cases data s with ⟨-, hc⟩ | ⟨-, hc⟩ | ⟨-, -, b, hb, -⟩ | ⟨-, -, -, hs⟩
    · cases hc.symm.trans hr
    · exact absurd hc hnot
    · exact absurd hb (hsending.2 b)
    · refine ⟨_, _, tail, by rw [step_call, hs], htail, fun heq => ?_⟩
      have hlt := hnum.lt q (hq ▸ .head _)
      rw [readPost, Post.send.injEq] at heq
      exact lt_irrefl _ (heq.1 ▸ hlt)
  · obtain ⟨hv, hsending⟩ := Classical.not_imp.1 horder
    obtain ⟨q, rest, hq⟩ := exists_cons_of_ne_nil hsending
    obtain ⟨tail, htail⟩ := hdue hq
    rcases close_cases code reason s with ⟨-, hc | hc | hc | hc⟩ | ⟨-, -, -, -, hp, -⟩ |
      ⟨-, -, -, -, -, hs⟩
    · cases hc.symm.trans hv
    · cases hclosed.symm.trans hc
    · cases hr.symm.trans hc
    · cases hr.symm.trans hc
    · cases hport.symm.trans hp
    · exact ⟨_, _, tail, by rw [step_call, hs], htail, by simp [closeRequest, readPost]⟩
  · obtain ⟨hlt, hi⟩ := Classical.not_imp.1 horder
    obtain ⟨q, rest, hq⟩ := exists_cons_of_ne_nil
      (ne_nil_of_length_pos (Nat.zero_lt_of_lt hlt))
    obtain ⟨tail, htail⟩ := hdue hq
    rcases sendRead_cases s i o with ⟨-, hle⟩ | ⟨p, hp, ⟨-, -, hs⟩ | ⟨hc, -⟩⟩
    · exact absurd hlt (not_lt.2 hle)
    · refine ⟨_, _, tail, by rw [hs], htail, fun heq => ?_⟩
      -- The Blob that was read is behind the first one, and has a greater number.
      have hmem : p ∈ rest := by
        rw [hq, getElem?_cons, if_neg hi] at hp
        exact mem_of_getElem? hp
      have hlt := (pairwise_cons.1 (hq ▸ hnum.pairwise)).1 p hmem
      rw [readPost, readPost, Post.send.injEq] at heq
      exact lt_irrefl _ (heq.1 ▸ hlt)
    · exact absurd hc hnot

theorem due_run (after : List Turn) (h : Posting s)
    (hts : ∀ t ∈ ts, t.isSending) (horder : Always step InOrder s ts) :
    Posting (run step s ts) ∧ due (run step s ts) after = due s (ts ++ after) := by
  induction ts generalizing s with
  | nil => exact ⟨h, rfl⟩
  | cons t ts ih =>
    obtain ⟨ht, hts⟩ := forall_mem_cons.1 hts
    obtain ⟨hposting, hdue⟩ := due_step h ht horder.1 (ts ++ after)
    obtain ⟨hrun, hsame⟩ := ih hposting hts horder.2
    exact ⟨hrun, hsame.trans hdue⟩

/-- An open socket posts what the page sends in the order of the calls, each once, and before the
    close that follows it, exactly if nothing overtakes a Blob that is being read. -/
theorem posted_iff (h : Opened s) (hnone : s.sending = []) (ts : List Turn)
    (hts : ∀ t ∈ ts, t.isSending) (hread : (run step s ts).sending = []) :
    (run step s ts).posted = s.posted ++ requests s.calls ts ↔ Always step InOrder s ts := by
  have hdue : due s ts = s.posted ++ requests s.calls ts := by
    rw [due, hnone, h.readyState, if_pos rfl, map_nil, append_nil]
  rw [← hdue]
  constructor
  · intro hposted
    rcases always_or_exists_first step InOrder s ts with horder | hbreak
    · exact horder
    obtain ⟨before, t, after, rfl, hbefore, hbad⟩ := hbreak
    rw [forall_mem_append, forall_mem_cons] at hts
    obtain ⟨hpast, ht, hfuture⟩ := hts
    obtain ⟨hposting, hsame⟩ := due_run (t :: after) (.inl h) hpast hbefore
    have hopened : Opened (run step s before) := by
      rcases hposting with ho | ⟨hr, -⟩
      · exact ho
      · exact absurd (fun ho => nomatch hr.symm.trans ho) hbad
    have hnum : Numbered (run step s before) :=
      run_induction ⟨by rw [hnone]; exact nofun, by rw [hnone]; exact .nil⟩
        fun _ t ht hs => hs.step (hpast t ht)
    -- What is posted out of turn stays in the place of what was due.
    obtain ⟨x, y, rest, hx, hy, hne⟩ := overtakes hopened hnum ht hbad after
    have hkept := @posted_run (step (run step s before) t) after hfuture
    rw [← run_cons, ← run_append, hposted, ← hsame, hy, hx, prefix_append_right_inj,
      cons_prefix_cons] at hkept
    exact absurd hkept.1 hne
  · intro horder
    obtain ⟨-, hsame⟩ := due_run [] (.inl h) hts horder
    rw [append_nil, due, hread, map_nil] at hsame
    rw [← hsame]
    split <;> simp [requests]

def justOpened : Socket := step (connect []) ⟨.reply (.resolved true []), []⟩

/-- A Blob that has been read, a text and a close are posted in their order. -/
theorem posted_blob_text : let ts : List Turn := [⟨.call (.send (.blob [1])), []⟩,
      ⟨.sendRead 0 true, []⟩, ⟨.call (.send (.text ['a'])), []⟩, ⟨.call (.close none none), []⟩]
    (run step justOpened ts).posted =
      [.send 0 (.buffer [1]) 1, .send 1 (.text ['a']) 1, .close 1000 []] :=
  (posted_iff (s := justOpened) ⟨rfl, rfl, rfl⟩ rfl _ (by decide) rfl).2
    ⟨fun _ => trivial, fun _ _ => rfl, fun _ => rfl, fun _ _ => rfl, trivial⟩

/-- A text overtakes a Blob that is being read. A Blob that is read after `close` is not posted. -/
theorem blob_overtaken : let overtaken : List Turn := [⟨.call (.send (.blob [1])), []⟩,
      ⟨.call (.send (.text ['a'])), []⟩, ⟨.sendRead 0 true, []⟩]
    let dropped : List Turn := [⟨.call (.send (.blob [1])), []⟩, ⟨.call (.close none none), []⟩,
      ⟨.sendRead 0 true, []⟩]
    ((run step justOpened overtaken).sending = [] ∧
      requests 0 overtaken = [.send 0 (.buffer [1]) 1, .send 1 (.text ['a']) 1] ∧
      (run step justOpened overtaken).posted = [.send 1 (.text ['a']) 1, .send 0 (.buffer [1]) 1]) ∧
    ((run step justOpened dropped).sending = [] ∧
      requests 0 dropped = [.send 0 (.buffer [1]) 1, .close 1000 []] ∧
      (run step justOpened dropped).posted = [.close 1000 []]) := by
  decide

end ZeroProxy.Membrane.WebSocket
