import ZeroProxy.Bytes.Source
import ZeroProxy.Text.Basic

/-!
# The gateways

The WebTransport gateway accepts the streams that one of two sessions opens and copies each of them
to a stream of the other session (`listener.go`). Which addresses the gateways dial is decided by
guards on the target.
-/

namespace ZeroProxy.Gateway

open Bytes

/-- How a copy ends: it is still going on, the source has ended or failed, or a write has failed. -/
inductive Copied
  | pending
  | eof
  | readFailed
  | writeFailed

def Copied.ofTail : Tail → Copied
  | .quiet => .pending
  | .closed => .eof
  | .broken => .readFailed

/-- The size of the buffer of `io.Copy`. -/
def bufferSize : Nat := 32 * 1024

/-- The loop of `io.Copy`: what it wrote and how it ended. A destination may take some writes and
    then fail (`room`). -/
def copyReads (tail : Tail) : Option Nat → List (List UInt8) → List UInt8 × Copied
  | _, [] => ([], .ofTail tail)
  | some 0, _ :: _ => ([], .writeFailed)
  | room, s :: reads =>
    let out := copyReads tail (room.map Nat.pred) reads
    (s ++ out.1, out.2)

/-- What is copied of a source, and how it ends. -/
def copy (room : Option Nat) (src : Source UInt8) : List UInt8 × Copied :=
  copyReads src.tail room (src.reads (bufferSize - 1))

/-- How a direction of a stream ends. -/
inductive Finish
  | clean
  | reset

/-- What the reader of the destination sees: the bytes, and the end if there is one. -/
structure Seen where
  bytes : List UInt8
  finish : Option Finish

/-- One direction of a bidirectional stream. -/
def relayHalf (room : Option Nat) (src : Source UInt8) : Seen :=
  let out := copy room src
  ⟨out.1, match out.2 with
    | .pending => none
    | .eof => some .clean
    | .readFailed | .writeFailed => some .reset⟩

/-- A unidirectional stream of `pumpUni`, whose destination is closed whatever the copy returns. One
    that failed a write was reset before, and closing it does nothing. -/
def relayUni (room : Option Nat) (src : Source UInt8) : Seen :=
  let out := copy room src
  ⟨out.1, match out.2 with
    | .pending => none
    | .eof | .readFailed => some .clean
    | .writeFailed => some .reset⟩

/-- The kinds of streams of a session. -/
inductive StreamKind
  | bidi
  | uni

/-- What is seen of a stream on the other side. -/
def bridge : StreamKind → Option Nat → Source UInt8 → Seen
  | .bidi => relayHalf
  | .uni => relayUni

/-- A clean end comes after all bytes of a source that ended itself, and a source that fails is seen
    as a reset. -/
structure Faithful (src : Source UInt8) (seen : Seen) : Prop where
  clean : seen.finish = some .clean → src.tail = .closed ∧ seen.bytes = src.bytes
  failed : src.tail = .broken → seen.finish = some .reset

variable {tail : Tail} {room : Option Nat} {reads : List (List UInt8)}

theorem copyReads_of_fails (h : ∃ n ∈ room, n < reads.length) :
    (copyReads tail room reads).2 = .writeFailed := by
  fun_induction copyReads tail room reads with
  | case1 => simp at h
  | case2 => rfl
  | case3 room s reads hroom out ih =>
    obtain ⟨n, rfl, hn⟩ := h
    cases n with
    | zero => exact (hroom rfl).elim
    | succ n => exact ih ⟨n, rfl, Nat.lt_of_succ_lt_succ hn⟩

theorem copyReads_of_not_fails (h : ¬∃ n ∈ room, n < reads.length) :
    copyReads tail room reads = (reads.flatten, .ofTail tail) := by
  fun_induction copyReads tail room reads with
  | case1 => rfl
  | case2 => exact absurd ⟨0, rfl, Nat.succ_pos _⟩ h
  | case3 room s reads hroom out ih =>
    have hout : out = (reads.flatten, .ofTail tail) := by
      refine ih ?_
      rintro ⟨n, hn, hlt⟩
      obtain ⟨m, hm, rfl⟩ := Option.map_eq_some_iff.1 hn
      cases m with
      | zero => exact hroom (hm ▸ rfl)
      | succ m => exact h ⟨m + 1, hm, Nat.succ_lt_succ hlt⟩
    rw [hout, List.flatten_cons]

/-- What the destination sees of a source, if no write fails. -/
def StreamKind.finish : StreamKind → Tail → Option Finish
  | _, .quiet => none
  | _, .closed => some .clean
  | .bidi, .broken => some .reset
  | .uni, .broken => some .clean

theorem bridge_of_fails {src : Source UInt8} (kind : StreamKind)
    (h : ∃ n ∈ room, n < (src.reads (bufferSize - 1)).length) :
    (bridge kind room src).finish = some .reset := by
  have hcopy : (copy room src).2 = .writeFailed := copyReads_of_fails h
  cases kind
  · rw [bridge, relayHalf, hcopy]
  · rw [bridge, relayUni, hcopy]

theorem bridge_of_not_fails {src : Source UInt8} (kind : StreamKind)
    (h : ¬∃ n ∈ room, n < (src.reads (bufferSize - 1)).length) :
    bridge kind room src = ⟨src.bytes, kind.finish src.tail⟩ := by
  have hcopy : copy room src = (src.bytes, .ofTail src.tail) := by
    rw [copy, copyReads_of_not_fails h, Source.flatten_reads]
  cases kind
  · rw [bridge, relayHalf, hcopy]
    cases src.tail <;> rfl
  · rw [bridge, relayUni, hcopy]
    cases src.tail <;> rfl

/-- A bridged stream is faithful exactly if it is bidirectional, its source does not fail, or a
    write to its destination fails before. -/
theorem bridge_faithful_iff (kind : StreamKind) (room : Option Nat) (src : Source UInt8) :
    Faithful src (bridge kind room src) ↔ kind = .bidi ∨ src.tail ≠ .broken ∨
      ∃ n ∈ room, n < (src.reads (bufferSize - 1)).length := by
  by_cases hfails : ∃ n ∈ room, n < (src.reads (bufferSize - 1)).length
  · have hreset := bridge_of_fails kind hfails
    refine iff_of_true ⟨fun h => ?_, fun _ => hreset⟩ (.inr (.inr hfails))
    rw [hreset] at h
    cases h
  rw [bridge_of_not_fails kind hfails]
  cases htail : src.tail with
  | quiet => exact iff_of_true ⟨nofun, by rw [htail]; nofun⟩ (.inr (.inl nofun))
  | closed => exact iff_of_true ⟨fun _ => ⟨htail, rfl⟩, by rw [htail]; nofun⟩ (.inr (.inl nofun))
  | broken =>
    cases kind with
    | bidi => exact iff_of_true ⟨nofun, fun _ => rfl⟩ (.inl rfl)
    | uni =>
      refine iff_of_false (fun h => ?_) ?_
      · cases h.failed htail
      · rintro (h | h | h)
        · cases h
        · exact h rfl
        · exact hfails h

/-- The source of a unidirectional stream is reset after one byte. -/
theorem bridge_reset_after_one : let src : Source UInt8 := ⟨[[0x61]], .broken⟩
    bridge .uni none src = ⟨[0x61], some .clean⟩ ∧ ¬Faithful src (bridge .uni none src) := by
  have hseen : bridge .uni none ⟨[[0x61]], .broken⟩ = ⟨[0x61], some .clean⟩ :=
    bridge_of_not_fails .uni (by rintro ⟨n, hn, -⟩; cases hn)
  refine ⟨hseen, fun h => ?_⟩
  have hclean := h.failed rfl
  rw [hseen] at hclean
  cases hclean

/-! ## Addresses

Three guards say which addresses are dialled for a page: that of the relay's own connections
(`host.go`), that of the WebTransport gateway and that of the TURN server (`turn.go`). -/

open Bool List Text

/-- `net.IP`: an address of 4 or 16 bytes. -/
abbrev IP := List UInt8

namespace IP

variable (ip : IP)

/-- A byte of an address. -/
def byte (i : Nat) : UInt8 := ip.getD i 0

/-- `To4`: the address as one of IPv4, also if it is written as one of IPv6. -/
def to4 : Option IP :=
  if ip.length = 4 then some ip
  else if ip.length = 16 ∧ ip.take 12 = replicate 10 0 ++ [0xff, 0xff] then some (ip.drop 12)
  else none

/-- A test for addresses of IPv4, and another one for those of IPv6. -/
def test (v4 v6 : IP → Bool) : Bool :=
  match ip.to4 with
  | some ip4 => v4 ip4
  | none => ip.length == 16 && v6 ip

def isUnspecified : Bool := ip.test (· == [0, 0, 0, 0]) (· == replicate 16 0)

def isLoopback : Bool := ip.test (·.byte 0 == 127) (· == replicate 15 0 ++ [1])

def isPrivate : Bool :=
  ip.test (fun a => a.byte 0 == 10 || a.byte 0 == 172 && a.byte 1 &&& 0xf0 == 16 ||
    a.byte 0 == 192 && a.byte 1 == 168) (·.byte 0 &&& 0xfe == 0xfc)

def isMulticast : Bool := ip.test (·.byte 0 &&& 0xf0 == 0xe0) (·.byte 0 == 0xff)

def isInterfaceLocalMulticast : Bool :=
  ip.length == 16 && ip.byte 0 == 0xff && ip.byte 1 &&& 0x0f == 0x01

def isLinkLocalMulticast : Bool :=
  ip.test (fun a => a.byte 0 == 224 && a.byte 1 == 0 && a.byte 2 == 0)
    fun a => a.byte 0 == 0xff && a.byte 1 &&& 0x0f == 0x02

def isLinkLocalUnicast : Bool :=
  ip.test (fun a => a.byte 0 == 169 && a.byte 1 == 254)
    fun a => a.byte 0 == 0xfe && a.byte 1 &&& 0xc0 == 0x80

/-- The network 100.64.0.0/10. -/
def inCgnat : Bool := ip.test (fun a => a.byte 0 == 100 && a.byte 1 &&& 0xc0 == 64) fun _ => false

/-- `IsNonPublic`. -/
def isNonPublic : Bool :=
  ip.length == 0 || ip.isLoopback || ip.isPrivate || ip.isUnspecified || ip.isLinkLocalUnicast ||
    ip.isLinkLocalMulticast || ip.isInterfaceLocalMulticast || ip.isMulticast || ip.inCgnat ||
    ip.test
      (fun a => a.byte 0 == 198 && a.byte 1 &&& 0xfe == 18 ||
        a.byte 0 == 192 && a.byte 1 == 0 && a.byte 2 == 0 || a == [255, 255, 255, 255])
      fun a => a.take 4 == [0x00, 0x64, 0xff, 0x9b] || a.take 2 == [0x20, 0x02] ||
        a.take 4 == [0x20, 0x01, 0x00, 0x00] || a.take 4 == [0x20, 0x01, 0x0d, 0xb8]

/-- What the relay never dials. -/
def isBlocked : Bool :=
  ip.length == 0 || ip.isUnspecified || ip.isLinkLocalUnicast || ip.isLinkLocalMulticast ||
    ip.isInterfaceLocalMulticast || ip.isMulticast

theorem isNonPublic_of_isBlocked {ip : IP} (h : ip.isBlocked) : ip.isNonPublic := by
  simp only [isBlocked, or_eq_true] at h
  simp only [isNonPublic, or_eq_true]
  tauto

end IP

/-! ## The guards -/

/-- Whether private addresses may be dialled. -/
inductive TargetPolicy
  | default
  | allowPrivate
  | blockPrivate

/-- How the relay dials. -/
inductive TransportMode
  | auto
  | socks5
  | direct
  deriving DecidableEq

/-- What the guards read of the configuration. -/
structure Config where
  targetPolicy : TargetPolicy
  transport : TransportMode
  socksAddr : Text

/-- Private addresses are refused. -/
def Config.disallowsPrivateTargets (c : Config) : Bool :=
  match c.targetPolicy with
  | .blockPrivate => true
  | .allowPrivate => false
  | .default => c.transport = .direct || eqCI (rustTrim c.socksAddr) "direct"

/-- Why a target is refused. -/
inductive TargetError
  | doesNotResolve
  | blockedAddress
  | nonPublicAddress
  deriving DecidableEq

/-- The first address of IPv4, or else the first one. -/
def pick (ips : List IP) : Option IP := (ips.find? (·.to4.isSome)).or ips.head?

/-- The check of the addresses that a host resolves to, each in turn. -/
def vet (disallowPrivate : Bool) : List IP → Except TargetError Unit
  | [] => .ok ()
  | ip :: ips =>
    if ip.isBlocked then .error .blockedAddress
    else if disallowPrivate && ip.isNonPublic then .error .nonPublicAddress
    else vet disallowPrivate ips

/-- The address that is dialled for a host that resolves to `ips`. -/
def resolveInternalTarget (c : Config) (ips : List IP) : Except TargetError IP :=
  match pick ips with
  | none => .error .doesNotResolve
  | some ip => (vet c.disallowsPrivateTargets ips).map fun _ => ip

/-- The address that is dialled for a target. -/
def targetAddr (allowPrivateTargets : Bool) (ips : List IP) : Except TargetError IP :=
  match pick ips with
  | none => .error .doesNotResolve
  | some ip =>
    if !allowPrivateTargets && ips.any IP.isNonPublic then .error .nonPublicAddress else .ok ip

/-- The TURN server relays to a peer. -/
def permissionHandler (allowPrivatePeers : Bool) (peer : IP) : Bool :=
  allowPrivatePeers || !peer.isNonPublic

variable {c : Config} {ip : IP} {ips : List IP}

theorem mem_of_pick (h : pick ips = some ip) : ip ∈ ips := by
  rcases Option.or_eq_some_iff.1 h with h | ⟨-, h⟩
  · exact mem_of_find?_eq_some h
  · exact mem_of_head? h

theorem resolveInternalTarget_singleton_iff : resolveInternalTarget c [ip] = .ok ip ↔
    ip.isBlocked = false ∧ (c.disallowsPrivateTargets → ip.isNonPublic = false) := by
  have hpick : pick [ip] = some ip := by
    rw [pick, find?_singleton]
    split <;> rfl
  rw [resolveInternalTarget, hpick, vet]
  cases ip.isBlocked <;> cases c.disallowsPrivateTargets <;> cases ip.isNonPublic <;>
    simp [vet, Except.map]

theorem resolveInternalTarget_of_public (h : ip.isNonPublic = false) :
    resolveInternalTarget c [ip] = .ok ip := by
  refine resolveInternalTarget_singleton_iff.2 ⟨eq_false_iff.2 fun hb => ?_, fun _ => h⟩
  exact false_ne_true (h.symm.trans (IP.isNonPublic_of_isBlocked hb))

/-- Under one setting for private targets, what the gateways reach is what the relay dials, exactly
    if private targets are disallowed, or neither the address that is dialled nor the peer is one
    that the relay never dials. -/
theorem gateways_within_relay_iff (c : Config) (ips : List IP) (peer : IP) :
    ((∀ ip, targetAddr (!c.disallowsPrivateTargets) ips = .ok ip →
        resolveInternalTarget c [ip] = .ok ip) ∧
      (permissionHandler (!c.disallowsPrivateTargets) peer →
        resolveInternalTarget c [peer] = .ok peer)) ↔
      c.disallowsPrivateTargets ∨
        (∀ ip ∈ pick ips, ip.isBlocked = false) ∧ peer.isBlocked = false := by
  cases hc : c.disallowsPrivateTargets with
  | true =>
    refine iff_of_true ⟨fun ip hip => ?_, fun hpeer => ?_⟩ (.inl rfl)
    · rw [targetAddr] at hip
      split at hip
      · cases hip
      · rename_i hpick
        split_ifs at hip with hany
        cases hip
        have hall : ∀ x ∈ ips, ¬x.isNonPublic := by simpa using hany
        exact resolveInternalTarget_of_public (eq_false_iff.2 (hall ip (mem_of_pick hpick)))
    · exact resolveInternalTarget_of_public (by simpa [permissionHandler] using hpeer)
  | false =>
    have htarget (ip : IP) : targetAddr (!false) ips = .ok ip ↔ pick ips = some ip := by
      rw [targetAddr]
      cases pick ips <;> simp
    simp only [htarget, resolveInternalTarget_singleton_iff, hc]
    simp [permissionHandler]

/-- A link-local address, with private targets allowed. -/
theorem gateways_reach_link_local : let c : Config := ⟨.allowPrivate, .auto, "internal"⟩
    targetAddr (!c.disallowsPrivateTargets) [[169, 254, 169, 254]] = .ok [169, 254, 169, 254] ∧
      permissionHandler (!c.disallowsPrivateTargets) [169, 254, 169, 254] ∧
      resolveInternalTarget c [[169, 254, 169, 254]] = .error .blockedAddress := by
  decide

end ZeroProxy.Gateway
