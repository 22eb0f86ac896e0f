import ZeroProxy.Machine.Run

/-!
# Sessions of the multiplexer

The connections of the kernel are streams of one session with the relay, which is cached
(`yamux.rs`). A dialer (`RelayDialer::connect`) takes the cached session or opens one, asks its
driver for a stream, and makes a handshake on it. It is suspended at each of these points, and other
dialers and drivers run meanwhile. A session whose handles are all dropped is shut down.
-/

namespace ZeroProxy.Kernel

namespace Mux

/-! ## The state -/

/-- What the driver of a session does: it runs, waits for the connection to close, or is gone. -/
inductive Status
  | running
  | closing
  | gone
  deriving DecidableEq

/-- Where a dialer is suspended. `failed` is the session whose stream it could not open before,
    which it holds on to. -/
inductive Task
  /-- The WebSocket is being opened. -/
  | opening (failed : Option Nat)
  /-- The driver of `s` was asked for a stream. -/
  | asking (s : Nat) (failed : Option Nat)
  /-- The driver has answered, with a stream or with an error. -/
  | granted (s : Nat) (failed : Option Nat)
  | refused (s : Nat) (failed : Option Nat)
  /-- The handshake on a stream of `s`. -/
  | shaking (s held : Nat)
  | ended
  deriving DecidableEq

/-- The sessions that a dialer holds a handle of. -/
def Task.handles : Task → List Nat
  | .opening failed => failed.toList
  | .asking s failed | .granted s failed | .refused s failed => s :: failed.toList
  | .shaking _ held => [held]
  | .ended => []

end Mux

/-- The cache, the sessions by number, the dialers, and the sessions of the streams that are in use
    and of those in the pools. -/
structure Mux where
  cache : Option Nat
  sessions : List Mux.Status
  tasks : List Mux.Task
  streams : List Nat
  pooled : List Nat

namespace Mux

open Bool List Machine Option

/-- No session yet. -/
def start : Mux := ⟨none, [], [], [], []⟩

/-- The session runs. -/
def live (m : Mux) (s : Nat) : Bool := m.sessions[s]? = some .running

/-- The session is being closed. -/
def isClosing (m : Mux) (s : Nat) : Bool := m.sessions[s]? = some .closing

/-- Someone has a handle of the session. -/
def held (m : Mux) (s : Nat) : Bool :=
  m.cache = some s || m.tasks.any fun t => t.handles.contains s

/-- The session has a stream, or a connection in the pool. -/
def carries (m : Mux) (s : Nat) : Bool := m.streams.contains s || m.pooled.contains s

/-! ## Dialers and drivers -/

/-- `invalidate`: the next opening does not find the session. -/
def invalidate (m : Mux) : Mux := { m with cache := none }

/-- The pools are emptied. -/
def clearPools (m : Mux) : Mux := { m with pooled := [] }

/-- `get_or_open` and `open_stream` in a dialer: where it is suspended. The cached session is asked
    for a stream, and when there is none a WebSocket is opened. -/
def nextTask (m : Mux) (failed : Option Nat) : Task :=
  match m.cache with
  | some s => .asking s failed
  | none => .opening failed

/-- The driver has exited: who asked it for a stream gets an error. -/
def Task.refuse (s : Nat) : Task → Task
  | .asking s' failed => if s' = s then .refused s' failed else .asking s' failed
  | t => t

/-- What happens next: a dialer begins (`connect`), its WebSocket opens or fails, its driver gives
    it a stream, it goes on after an answer, its handshake ends; a stream is dropped, put in the
    pools, or taken from there; a driver finds its connection at its end (`exit`), or finds all its
    handles dropped (`shutdown`) and then its connection closed. -/
inductive Act
  | connect
  | opened (i : Nat)
  | openFailed (i : Nat)
  | grant (i : Nat)
  | resume (i : Nat)
  | finish (i : Nat) (ok : Bool)
  | drop (s : Nat)
  | keep (s : Nat)
  | reuse (s : Nat)
  | exit (s : Nat)
  | shutdown (s : Nat)
  | closed (s : Nat)

/-- The state after that; nothing changes when it cannot happen. -/
def step (m : Mux) : Act → Mux
  | .connect =>
    match m.cache with
    | some s =>
      if m.live s then { m with tasks := m.tasks ++ [.asking s none] }
      -- The driver is gone, which the dialer sees at once.
      else
        let m := m.invalidate.clearPools
        { m with tasks := m.tasks ++ [m.nextTask (some s)] }
    | none => { m with tasks := m.tasks ++ [.opening none] }
  | .opened i =>
    match m.tasks[i]? with
    | some (.opening failed) => { m with
        sessions := m.sessions ++ [.running]
        cache := some m.sessions.length
        tasks := m.tasks.set i (.asking m.sessions.length failed) }
    | _ => m
  | .openFailed i =>
    match m.tasks[i]? with
    | some (.opening _) => { m with tasks := m.tasks.set i .ended }
    | _ => m
  | .grant i =>
    match m.tasks[i]? with
    | some (.asking s failed) =>
      if m.live s then { m with
        streams := m.streams ++ [s], tasks := m.tasks.set i (.granted s failed) }
      else m
    | _ => m
  | .resume i =>
    match m.tasks[i]? with
    | some (.granted s failed) => { m with tasks := m.tasks.set i (.shaking s (failed.getD s)) }
    | some (.refused s none) =>
      let m := m.invalidate.clearPools
      { m with tasks := m.tasks.set i (m.nextTask (some s)) }
    | some (.refused _ (some _)) => { m with tasks := m.tasks.set i .ended }
    | _ => m
  | .finish i ok =>
    match m.tasks[i]? with
    | some (.shaking s _) => { m with
        tasks := m.tasks.set i .ended
        streams := if ok then m.streams else m.streams.erase s }
    | _ => m
  | .drop s => { m with streams := m.streams.erase s }
  | .keep s =>
    if m.streams.contains s then { m with
      streams := m.streams.erase s, pooled := m.pooled ++ [s] }
    else m
  | .reuse s =>
    if m.pooled.contains s then { m with
      pooled := m.pooled.erase s, streams := m.streams ++ [s] }
    else m
  | .exit s =>
    if m.live s then
      let m : Mux := { m with
        sessions := m.sessions.set s .gone
        tasks := m.tasks.map (Task.refuse s)
        streams := m.streams.filter (· ≠ s) }
      m.invalidate
    else m
  | .shutdown s =>
    if m.live s && !m.held s then { m with
      sessions := m.sessions.set s .closing, streams := m.streams.filter (· ≠ s) }
    else m
  | .closed s =>
    if m.isClosing s then
      let m : Mux := { m with sessions := m.sessions.set s .gone }
      m.invalidate
    else m

/-! ## What the end of a session may do -/

/-- The session that fails or ends: its driver exits, or a dialer finds that it has. -/
def failing (m : Mux) : Act → Option Nat
  | .exit s => if m.live s then some s else none
  | .closed s => if m.isClosing s then some s else none
  | .resume i =>
    match m.tasks[i]? with
    | some (.refused s none) => some s
    | _ => none
  | .connect =>
    match m.cache with
    | some s => if m.live s then none else some s
    | none => none
  | _ => none

/-- The end of a session does not remove another live session from the cache, nor its connections
    from the pools; and no session is shut down that carries streams. -/
def Safe (m : Mux) (a : Act) : Prop :=
  (∀ s, m.failing a = some s → ∀ s', s' ≠ s → m.live s' →
    (m.cache = some s' → (m.step a).cache = some s') ∧
      (s' ∈ m.pooled → s' ∈ (m.step a).pooled)) ∧
  ∀ s, a = .shutdown s → m.live s → m.held s = false → m.carries s = false

/-- The state in which that is so: a driver whose connection is at its end finds its own session or
    none in the cache, one that was shut down finds none, and so does a dialer whose session failed,
    with no connection of a live session in the pools; what is shut down carries no streams. -/
def Orderly (m : Mux) : Act → Prop
  | .exit s => m.live s → m.cache = none ∨ m.cache = some s
  | .closed s => m.isClosing s → m.cache = none
  | .resume i => ∀ s, m.tasks[i]? = some (.refused s none) →
      m.cache = none ∧ ∀ s' ∈ m.pooled, m.live s' = false
  | .shutdown s => m.live s → m.held s = false → m.carries s = false
  | _ => True

/-- What holds at any time. -/
structure Inv (m : Mux) : Prop where
  cached : ∀ s, m.cache = some s → m.live s
  refused : ∀ s failed, .refused s failed ∈ m.tasks → s < m.sessions.length ∧ m.live s = false

theorem inv_start : Inv start where
  cached _ h := absurd h.symm (some_ne_none _)
  refused _ _ h := nomatch h

variable {m : Mux}

theorem safe_of_failing_none {a : Act} (hfail : m.failing a = none) (ha : ∀ s, a ≠ .shutdown s) :
    m.Safe a :=
  ⟨fun _ hs => absurd (hfail.symm.trans hs).symm (some_ne_none _), fun s hs => absurd hs (ha s)⟩

theorem safe_iff_of_invalidate (h : Inv m) {a : Act} {s : Nat} (hfail : m.failing a = some s)
    (hcache : (m.step a).cache = none) (ha : ∀ s, a ≠ .shutdown s) :
    m.Safe a ↔ (m.cache = none ∨ m.cache = some s) ∧
      ∀ s' ∈ m.pooled, s' ≠ s → m.live s' → s' ∈ (m.step a).pooled := by
  constructor
  · rintro ⟨hsafe, -⟩
    refine ⟨?_, fun s' hs' hne hlive => (hsafe s hfail s' hne hlive).2 hs'⟩
    cases hc : m.cache with
    | none => exact .inl rfl
    | some s' =>
      by_cases hne : s' = s
      · exact .inr (congrArg some hne)
      · have hkept := (hsafe s hfail s' hne (h.cached s' hc)).1 hc
        exact absurd (hcache.symm.trans hkept).symm (some_ne_none _)
  · rintro ⟨hown, hpooled⟩
    refine ⟨fun s₀ hs₀ s' hne hlive => ?_, fun s₀ hs₀ => absurd hs₀ (ha s₀)⟩
    cases hfail.symm.trans hs₀
    refine ⟨fun hc => ?_, fun hs' => hpooled s' hs' hne hlive⟩
    rcases hown with hnone | hsome
    · exact absurd (hnone.symm.trans hc).symm (some_ne_none _)
    · exact absurd (some.inj (hc.symm.trans hsome)) hne

theorem safe_iff_orderly (h : Inv m) (a : Act) : m.Safe a ↔ m.Orderly a := by
  cases a with
  | connect =>
    refine iff_of_true (safe_of_failing_none ?_ nofun) trivial
    rw [failing]
    cases hc : m.cache with
    | none => rfl
    | some s => exact if_pos (h.cached s hc)
  | opened _ | openFailed _ | grant _ | finish _ _ | drop _ | keep _ | reuse _ =>
    exact iff_of_true (safe_of_failing_none rfl nofun) trivial
  | shutdown s =>
    constructor
    · exact fun hsafe => hsafe.2 s rfl
    · refine fun hstop => ⟨fun _ hs => absurd hs nofun, fun s' hs' => ?_⟩
      cases hs'
      exact hstop
  | exit s =>
    by_cases hlive : m.live s
    · have hfail : m.failing (.exit s) = some s := if_pos hlive
      have hstep : (m.step (.exit s)).cache = none ∧ (m.step (.exit s)).pooled = m.pooled := by
        rw [step, if_pos hlive]
        exact ⟨rfl, rfl⟩
      rw [safe_iff_of_invalidate h hfail hstep.1 nofun, hstep.2]
      exact ⟨fun hsafe _ => hsafe.1, fun hown => ⟨hown hlive, fun s' hs' _ _ => hs'⟩⟩
    · exact iff_of_true (safe_of_failing_none (if_neg hlive) nofun) fun hl => absurd hl hlive
  | closed s =>
    by_cases hclosing : m.isClosing s
    · have hfail : m.failing (.closed s) = some s := if_pos hclosing
      have hstep : (m.step (.closed s)).cache = none ∧ (m.step (.closed s)).pooled = m.pooled := by
        rw [step, if_pos hclosing]
        exact ⟨rfl, rfl⟩
      -- The session is not in the cache: it does not run.
      have hother : m.cache ≠ some s := fun hc => by
        have hrun := h.cached s hc
        rw [live, decide_eq_true_eq] at hrun
        rw [isClosing, hrun] at hclosing
        cases hclosing
      rw [safe_iff_of_invalidate h hfail hstep.1 nofun, hstep.2]
      exact ⟨fun hsafe _ => hsafe.1.resolve_right hother,
        fun hnone => ⟨.inl (hnone hclosing), fun s' hs' _ _ => hs'⟩⟩
    · exact iff_of_true (safe_of_failing_none (if_neg hclosing) nofun)
        fun hc => absurd hc hclosing
  | resume i =>
    cases ht : m.tasks[i]? with
    | none =>
      refine iff_of_true (safe_of_failing_none ?_ nofun) fun s hs => ?_
      · simp [failing, ht]
      · cases ht.symm.trans hs
    | some t =>
      by_cases hrefused : ∃ s, t = .refused s none
      · obtain ⟨s, rfl⟩ := hrefused
        have hgone := h.refused s none (mem_of_getElem? ht)
        have hother : m.cache ≠ some s := fun hc => by
          rw [h.cached s hc] at hgone
          exact absurd hgone.2 nofun
        have hfail : m.failing (.resume i) = some s := by simp [failing, ht]
        have hstep : (m.step (.resume i)).cache = none ∧ (m.step (.resume i)).pooled = [] := by
          simp only [step, ht]
          exact ⟨rfl, rfl⟩
        rw [safe_iff_of_invalidate h hfail hstep.1 nofun, hstep.2]
        constructor
        · rintro ⟨hown, hpooled⟩ s₀ -
          refine ⟨hown.resolve_right hother, fun s' hs' => eq_false_iff.2 fun hl => ?_⟩
          have hne : s' ≠ s := fun heq => by
            rw [← heq, hl] at hgone
            exact absurd hgone.2 nofun
          exact not_mem_nil (hpooled s' hs' hne hl)
        · intro hord
          obtain ⟨hnone, hpooled⟩ := hord s ht
          exact ⟨.inl hnone, fun s' hs' _ hl => absurd ((hpooled s' hs').symm.trans hl) nofun⟩
      · refine iff_of_true (safe_of_failing_none ?_ nofun) fun s hs => ?_
        · simp only [failing, ht]
          split
          · rename_i s heq
            exact absurd ⟨s, some.inj heq⟩ hrefused
          · rfl
        · exact absurd ⟨s, some.inj (ht.symm.trans hs)⟩ hrefused

/-! ## What a step keeps -/

theorem running_set {l : List Status} {s s' : Nat} {d : Status} (hd : d ≠ .running) :
    (l.set s d)[s']? = some .running ↔ s' ≠ s ∧ l[s']? = some .running := by
  rw [getElem?_set]
  by_cases heq : s = s'
  · rw [if_pos heq]
    refine iff_of_false (fun hs => ?_) fun hs => hs.1 heq.symm
    split at hs
    · exact hd (some.inj hs)
    · cases hs
  · rw [if_neg heq]
    exact (and_iff_right fun h => heq h.symm).symm

variable {m' : Mux}

theorem Inv.congr (h : Inv m) (hcache : ∀ s, m'.cache = some s → m.cache = some s)
    (hsessions : m'.sessions = m.sessions)
    (htasks : ∀ s failed, .refused s failed ∈ m'.tasks → .refused s failed ∈ m.tasks) : Inv m' where
  cached s hs := by
    rw [live, hsessions]
    exact h.cached s (hcache s hs)
  refused s failed hs := by
    rw [live, hsessions]
    exact h.refused s failed (htasks s failed hs)

theorem Inv.set (h : Inv m) {i : Nat} {t : Task} (ht : ∀ s failed, t ≠ .refused s failed)
    (hcache : ∀ s, m'.cache = some s → m.cache = some s) (hsessions : m'.sessions = m.sessions)
    (htasks : m'.tasks = m.tasks.set i t) : Inv m' :=
  h.congr hcache hsessions fun s failed hs => by
    rw [htasks] at hs
    exact (mem_or_eq_of_mem_set hs).resolve_right fun heq => ht s failed heq.symm

theorem Inv.push (h : Inv m) {t : Task} (ht : ∀ s failed, t ≠ .refused s failed)
    (hcache : ∀ s, m'.cache = some s → m.cache = some s) (hsessions : m'.sessions = m.sessions)
    (htasks : m'.tasks = m.tasks ++ [t]) : Inv m' :=
  h.congr hcache hsessions fun s failed hs => by
    rw [htasks] at hs
    exact (mem_append.1 hs).resolve_right fun heq => ht s failed (mem_singleton.1 heq).symm

theorem Inv.stop (h : Inv m) {s : Nat} {d : Status} (hd : d ≠ .running)
    (hsessions : m'.sessions = m.sessions.set s d)
    (hcache : ∀ s', m'.cache = some s' → m.cache = some s' ∧ s' ≠ s)
    (htasks : ∀ s' failed, .refused s' failed ∈ m'.tasks →
      .refused s' failed ∈ m.tasks ∨ (s' = s ∧ s < m.sessions.length)) : Inv m' where
  cached s' hs' := by
    obtain ⟨hc, hne⟩ := hcache s' hs'
    have hlive := h.cached s' hc
    rw [live, decide_eq_true_eq] at hlive ⊢
    rw [hsessions]
    exact (running_set hd).2 ⟨hne, hlive⟩
  refused s' failed hs' := by
    rw [live, hsessions, length_set, decide_eq_false_iff_not, running_set hd]
    rcases htasks s' failed hs' with hold | ⟨rfl, hlt⟩
    · obtain ⟨hlt, hdead⟩ := h.refused s' failed hold
      rw [live, decide_eq_false_iff_not] at hdead
      exact ⟨hlt, fun hrun => hdead hrun.2⟩
    · exact ⟨hlt, fun hrun => hrun.1 rfl⟩

theorem Inv.opened (h : Inv m) (i : Nat) : Inv (m.step (.opened i)) := by
  rw [Mux.step]
  split
  · rename_i failed ht
    refine ⟨fun s hs => ?_, fun s failed' hs => ?_⟩
    · cases hs
      simp [live]
    rcases mem_or_eq_of_mem_set hs with hold | heq
    · obtain ⟨hlt, hdead⟩ := h.refused s failed' hold
      rw [live] at hdead ⊢
      rw [length_append, getElem?_append_left hlt]
      exact ⟨Nat.lt_succ_of_lt hlt, hdead⟩
    · cases heq
  · exact h

theorem Inv.exit (h : Inv m) (s : Nat) : Inv (m.step (.exit s)) := by
  rw [Mux.step]
  split
  · rename_i hlive
    rw [live, decide_eq_true_eq] at hlive
    refine h.stop (s := s) (d := .gone) nofun rfl nofun fun s' failed hs' => ?_
    obtain ⟨t, ht, heq⟩ := mem_map.1 hs'
    cases t with
    | asking s₀ failed₀ =>
      rw [Task.refuse] at heq
      split at heq
      · rename_i hs₀
        cases heq
        exact .inr ⟨hs₀, (List.getElem?_eq_some_iff.1 hlive).1⟩
      · cases heq
    | refused s₀ failed₀ =>
      cases heq
      exact .inl ht
    | opening failed₀ | granted s₀ failed₀ | shaking s₀ held₀ | ended => cases heq
  · exact h

theorem Inv.resume (h : Inv m) (i : Nat) : Inv (m.step (.resume i)) := by
  rw [Mux.step]
  split
  · exact h.set (t := .shaking _ _) nofun (fun _ hs => hs) rfl rfl
  · exact h.set (t := .opening _) nofun nofun rfl rfl
  · exact h.set (t := .ended) nofun (fun _ hs => hs) rfl rfl
  · exact h

theorem Inv.step (h : Inv m) (a : Act) : Inv (m.step a) := by
  cases a with
  | opened i => exact h.opened i
  | exit s => exact h.exit s
  | resume i => exact h.resume i
  | connect =>
    rw [Mux.step]
    split
    · split
      · exact h.push (t := .asking _ _) nofun (fun _ hs => hs) rfl rfl
      · exact h.push (t := .opening _) nofun nofun rfl rfl
    · exact h.push (t := .opening _) nofun (fun _ hs => hs) rfl rfl
  | openFailed i | finish i _ =>
    rw [Mux.step]
    split
    · exact h.set (t := .ended) nofun (fun _ hs => hs) rfl rfl
    · exact h
  | grant i =>
    rw [Mux.step]
    split
    · split
      · exact h.set (t := .granted _ _) nofun (fun _ hs => hs) rfl rfl
      · exact h
    · exact h
  | drop s => exact h.congr (fun _ hs => hs) rfl fun _ _ hs => hs
  | keep s | reuse s =>
    rw [Mux.step]
    split
    · exact h.congr (fun _ hs => hs) rfl fun _ _ hs => hs
    · exact h
  | shutdown s =>
    rw [Mux.step]
    split
    · rename_i hstop
      rw [and_eq_true, not_eq_true', held, or_eq_false_iff, decide_eq_false_iff_not] at hstop
      exact h.stop (s := s) (d := .closing) nofun rfl
        (fun s' hs' => ⟨hs', fun heq => hstop.2.1 (heq ▸ hs')⟩) fun _ _ hs => .inl hs
    · exact h
  | closed s =>
    rw [Mux.step]
    split
    · exact h.stop (s := s) (d := .gone) nofun rfl nofun fun _ _ hs => .inl hs
    · exact h

/-- In any interleaving the cached session is running, and one that refused a dialer has ended. -/
theorem cached_running (acts : List Act) : Inv (run Mux.step start acts) :=
  run_induction inv_start fun _ a _ h => h.step a

/-! ## Openings that do not overlap -/

/-- A WebSocket opens only when no session runs and no dialer has yet to hear that its session
    failed. -/
def Alone (m : Mux) : Act → Prop
  | .opened _ => (∀ s, m.live s = false) ∧ ∀ s, .refused s none ∉ m.tasks
  | _ => True

/-- What holds when no openings overlap: a session that runs is the cached one, so that none is ever
    shut down, and a dialer that hears of a failure finds no session. -/
structure Single (m : Mux) : Prop extends Inv m where
  only : ∀ s, m.live s → m.cache = some s
  quiet : ∀ s, m.isClosing s = false
  heard : ∀ s, .refused s none ∈ m.tasks → m.cache = none

theorem single_start : Single start where
  toInv := inv_start
  only _ h := nomatch h
  quiet _ := rfl
  heard _ h := nomatch h

theorem Single.orderly (h : Single m) (a : Act) : m.Orderly a := by
  cases a with
  | exit s => exact fun hlive => .inr (h.only s hlive)
  | closed s => exact fun hclosing => absurd ((h.quiet s).symm.trans hclosing) nofun
  | shutdown s =>
    intro hlive hheld
    simp [held, h.only s hlive] at hheld
  | resume i =>
    intro s hs
    have hnone := h.heard s (mem_of_getElem? hs)
    refine ⟨hnone, fun s' _ => eq_false_iff.2 fun hlive => ?_⟩
    exact absurd (hnone.symm.trans (h.only s' hlive)) nofun
  | connect | opened _ | openFailed _ | grant _ | finish _ _ | drop _ | keep _ | reuse _ => trivial

theorem Single.congr (h : Single m) (hinv : Inv m') (hcache : m'.cache = m.cache)
    (hsessions : m'.sessions = m.sessions)
    (htasks : ∀ s, .refused s none ∈ m'.tasks → .refused s none ∈ m.tasks) : Single m' where
  toInv := hinv
  only s hs := by
    rw [live, hsessions] at hs
    exact hcache.trans (h.only s hs)
  quiet s := by
    rw [isClosing, hsessions]
    exact h.quiet s
  heard s hs := hcache.trans (h.heard s (htasks s hs))

theorem Single.opened (h : Single m) {i : Nat} (ha : m.Alone (.opened i)) :
    Single (m.step (.opened i)) := by
  have hinv := h.toInv.step (.opened i)
  obtain ⟨hdead, hheard⟩ := ha
  cases ht : m.tasks[i]? with
  | none => simpa only [Mux.step, ht] using h
  | some t =>
    cases t with
    | opening failed =>
      simp only [Mux.step, ht] at hinv ⊢
      refine ⟨hinv, fun s hs => ?_, fun s => ?_, fun s hs => ?_⟩
      · have hold := hdead s
        simp only [live, getElem?_append, decide_eq_true_eq, decide_eq_false_iff_not] at hs hold ⊢
        grind
      · have hold := h.quiet s
        simp only [isClosing, getElem?_append, decide_eq_false_iff_not] at hold ⊢
        grind
      · rcases mem_or_eq_of_mem_set hs with hold | heq
        · exact absurd hold (hheard s)
        · cases heq
    | asking _ _ | granted _ _ | refused _ _ | shaking _ _ | ended =>
      simpa only [Mux.step, ht] using h

theorem Single.exit (h : Single m) (s : Nat) : Single (m.step (.exit s)) := by
  have hinv := h.toInv.step (.exit s)
  by_cases hlive : m.live s
  · rw [Mux.step, if_pos hlive] at hinv ⊢
    refine ⟨hinv, fun s' hs' => ?_, fun s' => ?_, fun _ _ => rfl⟩
    · -- Only the session that ends was running.
      have hboth : s' ≠ s ∧ m.sessions[s']? = some .running :=
        (running_set (d := .gone) nofun).1 (of_decide_eq_true hs')
      have hcached := h.only s' (decide_eq_true hboth.2)
      rw [h.only s hlive] at hcached
      exact absurd (some.inj hcached).symm hboth.1
    · have hold := h.quiet s'
      simp only [invalidate, isClosing, getElem?_set, decide_eq_false_iff_not] at hold ⊢
      grind
  · rwa [Mux.step, if_neg hlive] at hinv ⊢

theorem Single.resume (h : Single m) (i : Nat) : Single (m.step (.resume i)) := by
  have hinv := h.toInv.step (.resume i)
  have hset {t t' : Task} (ht : t' ∈ m.tasks.set i t) (hne : t' ≠ t) : t' ∈ m.tasks :=
    (mem_or_eq_of_mem_set ht).resolve_right hne
  revert hinv
  rw [Mux.step]
  split
  · exact fun hinv => h.congr hinv rfl rfl fun s hs => hset hs nofun
  · rename_i s ht
    -- The dialer finds the cache empty already.
    have hnone := h.heard s (mem_of_getElem? ht)
    exact fun hinv => h.congr hinv hnone.symm rfl fun s hs => hset hs nofun
  · exact fun hinv => h.congr hinv rfl rfl fun s hs => hset hs nofun
  · exact fun _ => h

theorem Single.step (h : Single m) {a : Act} (ha : m.Alone a) : Single (m.step a) := by
  have hinv := h.toInv.step a
  cases a with
  | opened i => exact h.opened ha
  | exit s => exact h.exit s
  | resume i => exact h.resume i
  | shutdown s =>
    have hrun : (m.live s && !m.held s) = false := by
      cases hlive : m.live s with
      | false => rfl
      | true => simp [held, h.only s hlive]
    rwa [Mux.step, hrun, if_neg nofun]
  | closed s => rwa [Mux.step, h.quiet s, if_neg nofun]
  | connect =>
    refine h.congr hinv ?_ ?_ fun s hs => ?_
    all_goals
      cases hc : m.cache with
      | none => simp_all [Mux.step]
      | some s' =>
        have hlive := h.cached s' hc
        simp_all [Mux.step]
  | openFailed i | grant i | finish i _ | drop _ | keep _ | reuse _ =>
    refine h.congr hinv ?_ ?_ fun s hs => ?_
    all_goals grind [Mux.step, mem_or_eq_of_mem_set]

theorem Single.safe (h : Single m) {acts : List Act} (ha : Always Mux.step Mux.Alone m acts) :
    Always Mux.step Mux.Safe m acts := by
  induction acts generalizing m with
  | nil => trivial
  | cons a acts ih =>
    exact ⟨(safe_iff_orderly h.toInv a).2 (h.orderly a), ih (h.step ha.1) ha.2⟩

/-- A WebSocket that opens while a session runs, or before a dialer has heard that its session
    failed, can be followed by a step that does harm. -/
theorem Inv.harm (h : Inv m) {i : Nat} {failed : Option Nat}
    (ht : m.tasks[i]? = some (.opening failed)) (ha : ¬m.Alone (.opened i)) :
    ∃ a, ¬(m.step (.opened i)).Safe a := by
  have hinv := h.step (.opened i)
  simp only [Mux.step, ht] at hinv ⊢
  by_cases hdead : ∀ s, m.live s = false
  · obtain ⟨s, hs⟩ : ∃ s, .refused s none ∈ m.tasks := by simpa [Alone, hdead] using ha
    obtain ⟨j, hj⟩ := mem_iff_getElem?.1 hs
    refine ⟨.resume j, fun hsafe => ?_⟩
    have hother : i ≠ j := fun heq => by cases ht.symm.trans (heq ▸ hj)
    cases ((safe_iff_orderly hinv _).1 hsafe s ((getElem?_set_ne hother).trans hj)).1
  · obtain ⟨s, hs⟩ := not_forall.1 hdead
    have hrun : m.live s := by simpa using hs
    rw [live, decide_eq_true_eq] at hrun
    have hlt := (List.getElem?_eq_some_iff.1 hrun).1
    refine ⟨.exit s, fun hsafe => ?_⟩
    have hkept : (m.sessions ++ [.running])[s]? = some .running :=
      (getElem?_append_left hlt).trans hrun
    rcases (safe_iff_orderly hinv _).1 hsafe (decide_eq_true hkept) with hnone | hsome
    · cases hnone
    · exact absurd (some.inj hsome) (Nat.ne_of_gt hlt)

/-- In every run of dialers and drivers whose openings do not overlap, the end of a session never
    does harm to another one and no session is shut down that carries streams; and after any run,
    an opening that does overlap can be followed by a step that does harm. -/
theorem safe_alone (acts : List Act) :
    (Always Mux.step Mux.Alone start acts → Always Mux.step Mux.Safe start acts) ∧
    ∀ i failed, (run Mux.step start acts).tasks[i]? = some (.opening failed) →
      ¬(run Mux.step start acts).Alone (.opened i) →
      ∃ a, ¬(run Mux.step start (acts ++ [.opened i])).Safe a := by
  refine ⟨single_start.safe, fun i failed ht ha => ?_⟩
  rw [run_append]
  exact (run_induction inv_start fun _ a _ h => h.step a).harm ht ha

/-- Two dialers open a session each, and the end of the first one removes the second one from the
    cache; the second session replaces the first one in the cache, which is then shut down although
    a stream of it is in use; and a dialer whose session failed comes back when another session has
    been opened, and removes it and its connections. -/
theorem not_safe_two_dialers :
    ¬Always Mux.step Mux.Safe start [.connect, .connect, .opened 0, .opened 1, .exit 0] ∧
    ¬Always Mux.step Mux.Safe start [.connect, .connect, .opened 0, .grant 0, .resume 0,
      .finish 0 true, .opened 1, .shutdown 0] ∧
    ¬Always Mux.step Mux.Safe start [.connect, .opened 0, .exit 0, .connect, .opened 1, .grant 1,
      .resume 1, .finish 1 true, .keep 1, .resume 0] := by
  refine ⟨?_, ?_, ?_⟩
  · rintro ⟨-, -, -, -, ⟨hsafe, -⟩, -⟩
    cases (hsafe 0 rfl 1 (by decide) rfl).1 rfl
  · rintro ⟨-, -, -, -, -, -, -, ⟨-, hsafe⟩, -⟩
    cases hsafe 0 rfl rfl rfl
  · rintro ⟨-, -, -, -, -, -, -, -, -, ⟨hsafe, -⟩, -⟩
    cases (hsafe 0 rfl 1 (by decide) rfl).1 rfl

end Mux

end ZeroProxy.Kernel
