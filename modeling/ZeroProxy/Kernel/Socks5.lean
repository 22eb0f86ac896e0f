import ZeroProxy.Bytes.Source
import ZeroProxy.Kernel.IoError
import ZeroProxy.Machine.Run

/-!
# The SOCKS5 client

The messages of the client (`socks5.rs` of `zp-transport-codec`), the handshake that the kernel
makes on a stream to the relay before it uses it (`socks5.rs`), and the authentication that the
dialer asks for (`dialer.rs`): the isolation key of a target is its user name, so that connections
with different keys do not share a circuit.
-/

namespace ZeroProxy.Codec.Socks5

open Bytes Kernel Text

/-- The authentication that the client offers. -/
inductive Auth
  | none
  | userPassword (user pass : Text)

/-- The methods of the greeting: no authentication, and user name and password. -/
def Auth.methods : Auth → List UInt8
  | .none => [0x00]
  | .userPassword _ _ => [0x00, 0x02]

def buildGreeting (auth : Auth) : List UInt8 :=
  [0x05, auth.methods.length.toUInt8] ++ auth.methods

/-- A byte as `{:02x}` writes it. -/
def hex02 (b : UInt8) : Text := [Nat.digitChar (b.toNat / 16), Nat.digitChar (b.toNat % 16)]

def byteAt (reply : List UInt8) (i : Nat) : UInt8 := reply.getD i 0

/-- What follows the reply to a greeting. -/
inductive GreetingNext
  | sendConnect
  | runUserPassSubneg

/-- `parse_greeting_reply`, of two bytes. -/
def parseGreetingReply (reply : List UInt8) (auth : Auth) : Except IoError GreetingNext :=
  if byteAt reply 0 ≠ 0x05 then
    .error ⟨.invalidData, "socks5: bad greeting reply VER=0x" ++ hex02 (byteAt reply 0)⟩
  else if byteAt reply 1 = 0x00 then .ok .sendConnect
  else if byteAt reply 1 = 0x02 then
    match auth with
    | .userPassword _ _ => .ok .runUserPassSubneg
    | .none => .error ⟨.permissionDenied,
        "socks5: server selected USER_PASS but Auth::None was requested"⟩
  else if byteAt reply 1 = 0xff then
    .error ⟨.permissionDenied, "socks5: server has no acceptable auth method"⟩
  else .error ⟨.invalidData,
    "socks5: server selected unsupported method 0x" ++ hex02 (byteAt reply 1)⟩

def fits (t : Text) : Bool := 1 ≤ (utf8 t).length && (utf8 t).length ≤ 255

def buildUserpassSubneg (user pass : Text) : Except IoError (List UInt8) :=
  if !fits user || !fits pass then
    .error ⟨.invalidInput, "socks5: user/pass must each be 1..=255 bytes"⟩
  else .ok ([0x01, (utf8 user).length.toUInt8] ++ utf8 user ++
    ((utf8 pass).length.toUInt8 :: utf8 pass))

/-- `parse_userpass_reply`, of two bytes. -/
def parseUserpassReply (reply : List UInt8) : Except IoError Unit :=
  if byteAt reply 0 ≠ 0x01 then
    .error ⟨.invalidData, "socks5: bad subneg reply VER=0x" ++ hex02 (byteAt reply 0)⟩
  else if byteAt reply 1 ≠ 0x00 then
    .error ⟨.permissionDenied, "socks5: userpass auth rejected (status=0x" ++
      hex02 (byteAt reply 1) ++ [')']⟩
  else .ok ()

def toBeBytes (port : UInt16) : List UInt8 :=
  [(port.toNat / 256).toUInt8, (port.toNat % 256).toUInt8]

def buildConnectRequest (host : Text) (port : UInt16) : Except IoError (List UInt8) :=
  if !fits host then
    .error ⟨.invalidInput, "socks5: hostname must be 1..=255 bytes"⟩
  else .ok ([0x05, 0x01, 0x00, 0x03, (utf8 host).length.toUInt8] ++ utf8 host ++ toBeBytes port)

/-- The kind of address in a reply. -/
inductive ConnectAtyp
  | ipv4
  | ipv6
  | domain

/-- `fixed_skip`: the bytes of the address and the port, when that is known. -/
def ConnectAtyp.fixedSkip : ConnectAtyp → Option Nat
  | .ipv4 => some (4 + 2)
  | .ipv6 => some (16 + 2)
  | .domain => none

def mapRepKind (rep : UInt8) : ErrorKind :=
  match rep.toNat with
  | 1 => .other
  | 2 => .permissionDenied
  | 3 => .networkUnreachable
  | 4 => .hostUnreachable
  | 5 => .connectionRefused
  | 6 => .timedOut
  | 7 => .unsupported
  | 8 => .unsupported
  | _ => .other

def repText (rep : UInt8) : Text :=
  match rep.toNat with
  | 0 => "succeeded"
  | 1 => "general SOCKS server failure"
  | 2 => "connection not allowed by ruleset"
  | 3 => "network unreachable"
  | 4 => "host unreachable"
  | 5 => "connection refused"
  | 6 => "TTL expired"
  | 7 => "command not supported"
  | 8 => "address type not supported"
  | _ => "unknown REP"

/-- `parse_connect_reply_head`, of four bytes. -/
def parseConnectReplyHead (head : List UInt8) : Except IoError ConnectAtyp :=
  if byteAt head 0 ≠ 0x05 then
    .error ⟨.invalidData, "socks5: bad CONNECT reply VER=0x" ++ hex02 (byteAt head 0)⟩
  else if byteAt head 1 ≠ 0x00 then
    .error ⟨mapRepKind (byteAt head 1),
      "socks5: CONNECT rejected (REP=" ++ repText (byteAt head 1) ++ [')']⟩
  -- The third byte is reserved and may be anything.
  else if byteAt head 3 = 0x01 then .ok .ipv4
  else if byteAt head 3 = 0x04 then .ok .ipv6
  else if byteAt head 3 = 0x03 then .ok .domain
  else .error ⟨.invalidData, "socks5: bad CONNECT reply ATYP=0x" ++ hex02 (byteAt head 3)⟩

def connectReplyDomainSkip (len : UInt8) : Nat := len.toNat + 2

end ZeroProxy.Codec.Socks5

namespace ZeroProxy.Kernel.Socks5

open Bytes Codec.Socks5 Machine Text

abbrev Socket (α : Type) := Process UInt8 (Except IoError α)

def userpassSubneg (user pass : Text) : Socket Unit :=
  Process.orFail (buildUserpassSubneg user pass) fun buf =>
    .put buf (.take 2 fun reply => .ret (parseUserpassReply reply))

def methodNegotiation (auth : Auth) : Socket Unit :=
  .put (buildGreeting auth) (.take 2 fun reply =>
    Process.orFail (parseGreetingReply reply auth) fun
      | .sendConnect => .ret (.ok ())
      | .runUserPassSubneg =>
        match auth with
        | .userPassword user pass => userpassSubneg user pass
        -- Not reached: the reply was checked against `auth`.
        | .none => .ret (.error ⟨.other, []⟩))

/-- The reply to a request, read to its end. -/
def readReply : Socket Unit :=
  .take 4 fun head =>
    Process.orFail (parseConnectReplyHead head) fun
      | .domain => .take 1 fun len =>
        .take (connectReplyDomainSkip (byteAt len 0)) fun _ => .ret (.ok ())
      | atyp => .take (atyp.fixedSkip.getD 0) fun _ => .ret (.ok ())

def requestConnect (host : Text) (port : UInt16) : Socket Unit :=
  Process.orFail (buildConnectRequest host port) fun req => .put req readReply

def connect (host : Text) (port : UInt16) (auth : Auth) : Socket Unit :=
  (methodNegotiation auth).andThen fun _ => requestConnect host port

/-- The authentication that `RelayDialer::connect` chooses for the isolation key of a target. -/
def isolationAuth (key : Option Text) : Auth :=
  match key with
  | some k => if fits k then .userPassword k "zp" else .none
  | none => .none

/-! ## Isolation keys

The client offers to go without, and the peer chooses. -/

open List Option Process

def atypByte : ConnectAtyp → UInt8
  | .ipv4 => 0x01
  | .ipv6 => 0x04
  | .domain => 0x03

/-- The reply to a request that succeeds: the address may be of any kind. -/
inductive Success : List UInt8 → Prop
  | ipv4 (rsv : UInt8) (bound : List UInt8) (h : bound.length = 4 + 2) :
    Success ([0x05, 0x00, rsv, atypByte .ipv4] ++ bound)
  | ipv6 (rsv : UInt8) (bound : List UInt8) (h : bound.length = 16 + 2) :
    Success ([0x05, 0x00, rsv, atypByte .ipv6] ++ bound)
  | domain (rsv len : UInt8) (bound : List UInt8) (h : bound.length = len.toNat + 2) :
    Success ([0x05, 0x00, rsv, atypByte .domain] ++ ([len] ++ bound))

theorem parseConnectReplyHead_ok {head : List UInt8} (hlen : head.length = 4) {atyp : ConnectAtyp}
    (h : parseConnectReplyHead head = .ok atyp) :
    ∃ rsv, head = [0x05, 0x00, rsv, atypByte atyp] := by
  obtain ⟨a, b, c, d, rfl⟩ : ∃ a b c d, head = [a, b, c, d] := by
    obtain ⟨a, as, rfl⟩ := exists_cons_of_length_eq_add_one hlen
    obtain ⟨b, c, d, rfl⟩ := length_eq_three.1 (Nat.succ.inj hlen)
    exact ⟨a, b, c, d, rfl⟩
  simp only [parseConnectReplyHead, byteAt, getD_cons_zero, getD_cons_succ] at h
  split_ifs at h with ha hb h1 h4 h3
  · cases h
    exact ⟨c, by rw [not_not.1 ha, not_not.1 hb, h1]; rfl⟩
  · cases h
    exact ⟨c, by rw [not_not.1 ha, not_not.1 hb, h4]; rfl⟩
  · cases h
    exact ⟨c, by rw [not_not.1 ha, not_not.1 hb, h3]; rfl⟩

variable {host : Text} {port : UInt16} {auth : Auth} {input out rest : List UInt8}

/-- The request succeeds exactly if the host fits and the peer sends a reply that succeeds. -/
theorem exec_requestConnect_ok : (requestConnect host port).exec input = some (.ok (), out, rest) ↔
      buildConnectRequest host port = .ok out ∧ ∃ reply, Success reply ∧ input = reply ++ rest := by
  rw [requestConnect, readReply]
  cases hbuild : buildConnectRequest host port with
  | error e => simp
  | ok req =>
    rw [orFail_ok, Except.ok.injEq]
    constructor
    · intro h
      obtain ⟨out', h, hout⟩ := exec_put_eq_some h
      obtain ⟨head, input₁, rfl, hlen, h⟩ := exec_take_eq_some h
      cases hparse : parseConnectReplyHead head with
      | error e =>
        rw [hparse] at h
        cases h
      | ok atyp =>
        obtain ⟨rsv, rfl⟩ := parseConnectReplyHead_ok hlen hparse
        rw [hparse, orFail_ok] at h
        cases atyp with
        | ipv4 =>
          obtain ⟨bound, input₂, rfl, hbound, h⟩ := exec_take_eq_some h
          cases h
          exact ⟨(hout.trans (append_nil req)).symm, _, .ipv4 rsv bound hbound,
            (append_assoc _ _ _).symm⟩
        | ipv6 =>
          obtain ⟨bound, input₂, rfl, hbound, h⟩ := exec_take_eq_some h
          cases h
          exact ⟨(hout.trans (append_nil req)).symm, _, .ipv6 rsv bound hbound,
            (append_assoc _ _ _).symm⟩
        | domain =>
          obtain ⟨lens, input₂, rfl, hlens, h⟩ := exec_take_eq_some h
          obtain ⟨len, rfl⟩ := length_eq_one_iff.1 hlens
          obtain ⟨bound, input₃, rfl, hbound, h⟩ := exec_take_eq_some h
          cases h
          exact ⟨(hout.trans (append_nil req)).symm, _, .domain rsv len bound hbound, by simp⟩
    · rintro ⟨rfl, reply, hreply, rfl⟩
      have hparse {rsv : UInt8} (atyp : ConnectAtyp) :
          parseConnectReplyHead [0x05, 0x00, rsv, atypByte atyp] = .ok atyp := by
        cases atyp <;> rfl
      rw [exec_put]
      cases hreply with
      | ipv4 rsv bound h =>
        rw [append_assoc, exec_take_append (by rfl), hparse .ipv4, orFail_ok]
        have hskip : bound.length = ConnectAtyp.ipv4.fixedSkip.getD 0 := h
        rw [exec_take_append hskip]
        simp
      | ipv6 rsv bound h =>
        rw [append_assoc, exec_take_append (by rfl), hparse .ipv6, orFail_ok]
        have hskip : bound.length = ConnectAtyp.ipv6.fixedSkip.getD 0 := h
        rw [exec_take_append hskip]
        simp
      | domain rsv len bound h =>
        rw [append_assoc, append_assoc, exec_take_append (by rfl), hparse .domain, orFail_ok]
        have hskip : bound.length = connectReplyDomainSkip (byteAt [len] 0) := h
        rw [exec_take_append (by rfl), exec_take_append hskip]
        simp

theorem exec_userpassSubneg_ok {user pass : Text} :
    (userpassSubneg user pass).exec input = some (.ok (), out, rest) ↔
      buildUserpassSubneg user pass = .ok out ∧ input = [0x01, 0x00] ++ rest := by
  rw [userpassSubneg]
  cases hbuild : buildUserpassSubneg user pass with
  | error e => simp
  | ok buf =>
    rw [orFail_ok, Except.ok.injEq]
    constructor
    · intro h
      obtain ⟨out', h, hout⟩ := exec_put_eq_some h
      obtain ⟨reply, input₁, rfl, hlen, h⟩ := exec_take_eq_some h
      obtain ⟨a, b, rfl⟩ := length_eq_two.1 hlen
      rw [exec_ret, some.injEq, Prod.mk.injEq, Prod.mk.injEq] at h
      obtain ⟨hparse, rfl, rfl⟩ := h
      simp only [parseUserpassReply, byteAt, getD_cons_zero, getD_cons_succ] at hparse
      split_ifs at hparse with ha hb
      rw [not_not] at ha hb
      rw [ha, hb]
      exact ⟨(hout.trans (append_nil buf)).symm, rfl⟩
    · rintro ⟨rfl, rfl⟩
      rw [exec_put, exec_take_append (by rfl)]
      simp [parseUserpassReply, byteAt]

theorem exec_methodNegotiation_ok : (methodNegotiation auth).exec input = some (.ok (), out, rest) ↔
      (input = [0x05, 0x00] ++ rest ∧ out = buildGreeting auth) ∨
      ∃ user pass buf, auth = .userPassword user pass ∧ buildUserpassSubneg user pass = .ok buf ∧
        input = [0x05, 0x02] ++ ([0x01, 0x00] ++ rest) ∧ out = buildGreeting auth ++ buf := by
  constructor
  · intro h
    unfold methodNegotiation at h
    obtain ⟨out', h, hout⟩ := exec_put_eq_some h
    obtain ⟨reply, input₁, rfl, hlen, h⟩ := exec_take_eq_some h
    obtain ⟨a, b, rfl⟩ := length_eq_two.1 hlen
    cases hparse : parseGreetingReply [a, b] auth with
    | error e =>
      rw [hparse] at h
      cases h
    | ok next =>
      rw [hparse, orFail_ok] at h
      simp only [parseGreetingReply, byteAt, getD_cons_zero, getD_cons_succ] at hparse
      split_ifs at hparse with ha h0 h2 hff
      · rw [not_not] at ha
        cases hparse
        cases h
        exact .inl ⟨by rw [ha, h0], hout.trans (append_nil _)⟩
      rw [not_not] at ha
      cases auth with
      | none => cases hparse
      | userPassword user pass =>
        cases hparse
        obtain ⟨hbuf, rfl⟩ := exec_userpassSubneg_ok.1 h
        exact .inr ⟨user, pass, out', rfl, hbuf, by rw [ha, h2], hout⟩
  · rintro (⟨rfl, rfl⟩ | ⟨user, pass, buf, rfl, hbuf, rfl, rfl⟩)
    · cases auth <;> rfl
    · unfold methodNegotiation
      rw [exec_put, exec_take_append (by rfl)]
      change Option.map _ ((userpassSubneg user pass).exec ([0x01, 0x00] ++ rest)) = _
      rw [exec_userpassSubneg_ok.2 ⟨hbuf, rfl⟩]
      rfl

theorem exec_connect_ok : (connect host port auth).exec input = some (.ok (), out, rest) ↔
      ∃ out₁ out₂ input₁, (methodNegotiation auth).exec input = some (.ok (), out₁, input₁) ∧
        (requestConnect host port).exec input₁ = some (.ok (), out₂, rest) ∧
        out = out₁ ++ out₂ := by
  rw [connect]
  constructor
  · intro h
    rw [andThen, exec_bind] at h
    obtain ⟨⟨r, out₁, input₁⟩, hfirst, h⟩ := bind_eq_some_iff.1 h
    obtain ⟨⟨r', out₂, rest'⟩, hsecond, heq⟩ := map_eq_some_iff.1 h
    cases heq
    cases r with
    | error e => cases hsecond
    | ok u => exact ⟨out₁, out₂, input₁, hfirst, hsecond, rfl⟩
  · rintro ⟨out₁, out₂, input₁, hfirst, hsecond, rfl⟩
    rw [exec_andThen_ok hfirst, hsecond]
    rfl

/-! ## Isolation -/

/-- On a stream on which `out` was sent and `input` received, the user name `key` was sent and
    accepted. -/
def Carries (key : Text) (out input : List UInt8) : Prop :=
  ∃ pass buf, buildUserpassSubneg key pass = .ok buf ∧
    buildGreeting (.userPassword key pass) ++ buf <+: out ∧ [0x05, 0x02, 0x01, 0x00] <+: input

/-- If the client is connected by a peer that sends `input`, the connection carries the key. -/
def Isolated (key host : Text) (port : UInt16) (input : List UInt8) : Prop :=
  ∀ out rest, (connect host port (isolationAuth (some key))).exec input = some (.ok (), out, rest) →
    Carries key out input

theorem not_isolated {key host : Text} {port : UInt16} {reply : List UInt8} (rest : List UInt8)
    (hhost : fits host) (hreply : Success reply) :
    ¬Isolated key host port ([0x05, 0x00] ++ (reply ++ rest)) := by
  intro h
  have hbuild : ∃ req, buildConnectRequest host port = .ok req := by
    rw [buildConnectRequest, hhost]
    exact ⟨_, rfl⟩
  obtain ⟨req, hreq⟩ := hbuild
  obtain ⟨pass, buf, -, -, tail, htail⟩ := h _ rest (exec_connect_ok.2 ⟨_, req, reply ++ rest,
    exec_methodNegotiation_ok.2 (.inl ⟨rfl, rfl⟩),
    exec_requestConnect_ok.2 ⟨hreq, reply, hreply, rfl⟩, rfl⟩)
  -- The second byte from the peer would be both methods.
  injection htail with _ hsecond
  injection hsecond with hmethod
  exact absurd hmethod (by decide)

/-- A target with an isolation key, and any bytes from the peer: if the client is connected then the
    connection carries the key, exactly unless the peer chooses no authentication and then connects
    a host that fits. -/
theorem carries_key_iff (key host : Text) (port : UInt16) (input : List UInt8) :
    Isolated key host port input ↔
      ¬(fits host ∧ ∃ reply rest, Success reply ∧ input = [0x05, 0x00] ++ (reply ++ rest)) := by
  constructor
  · rintro h ⟨hhost, reply, rest, hreply, rfl⟩
    exact not_isolated rest hhost hreply h
  intro h out rest hexec
  obtain ⟨out₁, out₂, input₁, hfirst, hsecond, rfl⟩ := exec_connect_ok.1 hexec
  obtain ⟨hreq, reply, hreply, rfl⟩ := exec_requestConnect_ok.1 hsecond
  rcases exec_methodNegotiation_ok.1 hfirst with ⟨rfl, -⟩ | ⟨user, pass, buf, hauth, hbuf, rfl, rfl⟩
  · refine absurd ⟨?_, reply, rest, hreply, rfl⟩ h
    rw [buildConnectRequest] at hreq
    split at hreq
    · cases hreq
    · rename_i hhost
      simpa using hhost
  · rw [isolationAuth] at hauth ⊢
    split at hauth
    · cases hauth
      exact ⟨_, buf, hbuf, by rw [if_pos ‹_›]; exact prefix_append _ _, prefix_append _ _⟩
    · cases hauth

/-- A peer that chooses no authentication and connects the target, and a key that does not fit. -/
theorem not_isolated_no_auth :
    ¬Isolated ['k'] ['h'] 443 [0x05, 0x00, 0x05, 0x00, 0x00, 0x01, 0, 0, 0, 0, 0, 0] ∧
    ¬Isolated (List.replicate 256 'k') ['h'] 443
      [0x05, 0x00, 0x05, 0x00, 0x00, 0x01, 0, 0, 0, 0, 0, 0] := by
  have h (key : Text) : ¬Isolated key ['h'] 443
      [0x05, 0x00, 0x05, 0x00, 0x00, 0x01, 0, 0, 0, 0, 0, 0] :=
    not_isolated [] (by decide) (.ipv4 0x00 [0, 0, 0, 0, 0, 0] rfl)
  exact ⟨h _, h _⟩

end ZeroProxy.Kernel.Socks5
