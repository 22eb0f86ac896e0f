import ZeroProxy.Text.Search
import ZeroProxy.Kernel.Socks5

/-!
# The SOCKS5 server of the relay

The relay reads the handshake of the client, dials the target and answers (`readSOCKS5Connect` and
`bridgeInternalSOCKS` of `host.go`). Client and server are written in two languages: connected by
two reliable streams they should agree on the target and on where the handshake ends.
-/

namespace ZeroProxy.Relay.Socks5

open Machine Text

/-- What is done on a stream: it has a result or fails with a text. -/
abbrev Conn (α : Type) := Process UInt8 (Except Text α)

/-- The choice among the methods of the greeting: user name and password when it is offered, or
    else no authentication when that is offered. -/
def selectMethod (method : UInt8) : List UInt8 → UInt8
  | [] => method
  | m :: methods =>
    if m = 0x02 then 0x02 else selectMethod (if m = 0x00 then 0x00 else method) methods

def acceptSOCKS5UserPass : Conn Unit :=
  .take 2 fun head =>
    if head.getD 0 0 ≠ 0x01 then
      .put [0x01, 0x01] (.ret (.error "invalid SOCKS5 auth version"))
    else .take (head.getD 1 0).toNat fun _ => .take 1 fun passLen =>
      .take (passLen.getD 0 0).toNat fun _ => .put [0x01, 0x00] (.ret (.ok ()))

/-- `readSOCKS5Address`; `ipString` is the text of an address of four or sixteen bytes. -/
def readSOCKS5Address (ipString : List UInt8 → List UInt8) (atyp : UInt8) : Conn (List UInt8) :=
  if atyp = 0x01 then .take 4 fun ip => .ret (.ok (ipString ip))
  else if atyp = 0x03 then
    .take 1 fun n =>
      if n.getD 0 0 = 0 then .ret (.error "empty SOCKS5 domain")
      else .take (n.getD 0 0).toNat fun host => .ret (.ok host)
  else if atyp = 0x04 then .take 16 fun ip => .ret (.ok (ipString ip))
  else .ret (.error "unsupported SOCKS5 address type")

/-- `binary.BigEndian.Uint16`. -/
def uint16 (buf : List UInt8) : Nat := (buf.getD 0 0).toNat * 256 + (buf.getD 1 0).toNat

def readRequest (ipString : List UInt8 → List UInt8) : Conn (List UInt8 × Text) :=
  .take 4 fun req =>
    if req.getD 0 0 ≠ 0x05 ∨ req.getD 1 0 ≠ 0x01 ∨ req.getD 2 0 ≠ 0x00 then
      .ret (.error "unsupported SOCKS5 request")
    else (readSOCKS5Address ipString (req.getD 3 0)).andThen fun host =>
      .take 2 fun portBuf =>
        if uint16 portBuf = 0 then .ret (.error "invalid SOCKS5 port")
        else .ret (.ok (host, numeral (uint16 portBuf)))

def afterMethod (ipString : List UInt8 → List UInt8) (method : UInt8) :
    Conn (List UInt8 × Text) :=
  if method = 0xff then .ret (.error "no acceptable SOCKS5 auth method")
  else if method = 0x02 then acceptSOCKS5UserPass.andThen fun _ => readRequest ipString
  else readRequest ipString

/-- `readSOCKS5Connect`: the host and the port of the request. -/
def readSOCKS5Connect (ipString : List UInt8 → List UInt8) : Conn (List UInt8 × Text) :=
  .take 2 fun head =>
    if head.getD 0 0 ≠ 0x05 ∨ head.getD 1 0 = 0 then
      .ret (.error "invalid SOCKS5 greeting")
    else .take (head.getD 1 0).toNat fun methods =>
      .put [0x05, selectMethod 0xff methods] (afterMethod ipString (selectMethod 0xff methods))

/-- What comes of dialling a target. -/
inductive Dial
  | unresolved
  | unreachable
  | connected

/-- The reply to a request: not allowed, a general failure, or success. -/
def Dial.reply : Dial → List UInt8
  | .unresolved => [0x05, 0x02, 0x00, 0x01, 0, 0, 0, 0, 0, 0]
  | .unreachable => [0x05, 0x01, 0x00, 0x01, 0, 0, 0, 0, 0, 0]
  | .connected => [0x05, 0x00, 0x00, 0x01, 0, 0, 0, 0, 0, 0]

/-- How the relay goes on: it gave the handshake up, it refused the request, or it bridges the
    stream to the target. -/
inductive Served
  | failed (err : Text)
  | refused (host : List UInt8) (port : Text)
  | bridged (host : List UInt8) (port : Text)

@[inherit_doc Served]
def Dial.served (d : Dial) (host : List UInt8) (port : Text) : Served :=
  match d with
  | .connected => .bridged host port
  | _ => .refused host port

def Served.isBridged : Served → Bool
  | .bridged _ _ => true
  | _ => false

/-- `bridgeInternalSOCKS`, until the stream is bridged. -/
def bridgeInternalSOCKS (ipString : List UInt8 → List UInt8) (dial : List UInt8 → Text → Dial) :
    Process UInt8 Served :=
  (readSOCKS5Connect ipString).bind fun
    | .error err => .ret (.failed err)
    | .ok (host, port) =>
      .put (dial host port).reply (.ret ((dial host port).served host port))

open Bool Bytes Codec.Socks5 Kernel Kernel.Socks5 List Machine.Network Option Process

variable {ipString : List UInt8 → List UInt8} {α γ : Type}
  {p : Process UInt8 α} {f : Except Text (List UInt8 × Text) → Process UInt8 γ}
  {x y : List UInt8} {s : Network UInt8 α γ}

/-! ## What the relay reads -/

theorem toNat_length {bs : List UInt8} (h : bs.length ≤ 255) :
    bs.length.toUInt8.toNat = bs.length := Nat.mod_eq_of_lt (by omega)

theorem length_ne_zero {bs : List UInt8} (hne : bs ≠ []) (h : bs.length ≤ 255) :
    bs.length.toUInt8 ≠ 0 := by
  intro hzero
  have hlen := toNat_length h
  rw [hzero] at hlen
  exact hne (eq_nil_of_length_eq_zero hlen.symm)

theorem reaches_readSOCKS5Connect {methods : List UInt8} (hne : methods ≠ [])
    (hlen : methods.length ≤ 255)
    (h : Reaches Step ⟨p, (afterMethod ipString (selectMethod 0xff methods)).bind f, x,
      y ++ [0x05, selectMethod 0xff methods]⟩ s) :
    Reaches Step ⟨p, (readSOCKS5Connect ipString).bind f,
      [0x05, methods.length.toUInt8] ++ (methods ++ x), y⟩ s := by
  rw [readSOCKS5Connect, take_bind]
  refine reaches_right_take (by rfl) ?_
  rw [if_neg (by simpa using length_ne_zero hne hlen), take_bind]
  refine reaches_right_take (toNat_length hlen).symm ?_
  rw [put_bind]
  exact reaches_right_put _ h

theorem reaches_acceptSOCKS5UserPass {user pass : List UInt8} (huser : user.length ≤ 255)
    (hpass : pass.length ≤ 255) {f : Except Text Unit → Process UInt8 γ}
    (h : Reaches Step ⟨p, f (.ok ()), x, y ++ [0x01, 0x00]⟩ s) :
    Reaches Step ⟨p, acceptSOCKS5UserPass.bind f, [0x01, user.length.toUInt8] ++
      (user ++ ([pass.length.toUInt8] ++ (pass ++ x))), y⟩ s := by
  rw [acceptSOCKS5UserPass, take_bind]
  refine reaches_right_take (by rfl) ?_
  rw [if_neg (by simp), take_bind]
  refine reaches_right_take (toNat_length huser).symm ?_
  rw [take_bind]
  refine reaches_right_take (by rfl) ?_
  rw [take_bind]
  refine reaches_right_take (toNat_length hpass).symm ?_
  rw [put_bind]
  exact reaches_right_put _ h

theorem uint16_toBeBytes (port : UInt16) : uint16 (toBeBytes port) = port.toNat := by
  have hlt := port.toNat_lt
  have hhigh : ((port.toNat / 256).toUInt8).toNat = port.toNat / 256 :=
    Nat.mod_eq_of_lt (by omega)
  have hlow : ((port.toNat % 256).toUInt8).toNat = port.toNat % 256 :=
    Nat.mod_eq_of_lt (by omega)
  rw [uint16, toBeBytes]
  simp only [getD_cons_zero, getD_cons_succ]
  omega

theorem reaches_readRequest {host : List UInt8} (hne : host ≠ []) (hlen : host.length ≤ 255)
    {port : UInt16} (hport : port ≠ 0)
    (h : Reaches Step ⟨p, f (.ok (host, numeral port.toNat)), x, y⟩ s) :
    Reaches Step ⟨p, (readRequest ipString).bind f, [0x05, 0x01, 0x00, 0x03] ++
      ([host.length.toUInt8] ++ (host ++ (toBeBytes port ++ x))), y⟩ s := by
  have hport' : ¬port.toNat = 0 := fun hzero => hport (UInt16.toNat_inj.1 hzero)
  rw [readRequest, take_bind]
  refine reaches_right_take (by rfl) ?_
  rw [if_neg (by simp), andThen]
  simp only [getD_cons_zero, getD_cons_succ]
  rw [readSOCKS5Address, if_neg (by decide), if_pos rfl, take_bind, take_bind]
  refine reaches_right_take (by rfl) ?_
  rw [if_neg (by simpa using length_ne_zero hne hlen), take_bind, take_bind]
  refine reaches_right_take (toNat_length hlen).symm ?_
  rw [ret_bind, orFail_ok, take_bind]
  refine reaches_right_take (by rfl) ?_
  rw [uint16_toBeBytes, if_neg hport', ret_bind]
  exact h

/-! ## The handshake -/

/-- The user name and the password have lengths that the protocol can say. -/
def valid : Auth → Bool
  | .none => true
  | .userPassword user pass => fits user && fits pass

theorem ne_nil_of_fits {t : Text} (h : fits t) : utf8 t ≠ [] ∧ (utf8 t).length ≤ 255 := by
  rw [fits, and_eq_true, decide_eq_true_eq, decide_eq_true_eq] at h
  exact ⟨ne_nil_of_length_pos h.1, h.2⟩

section Client

variable {k : Unit → Socket α} {s : Network UInt8 (Except IoError α) γ}

theorem reaches_userpassSubneg {user pass : Text} (huser : fits user)
    (hpass : fits pass) {f : Except Text Unit → Process UInt8 γ}
    (h : Reaches Step ⟨k (), f (.ok ()), [], []⟩ s) :
    Reaches Step ⟨(userpassSubneg user pass).andThen k, acceptSOCKS5UserPass.bind f, [], []⟩ s := by
  have hbuild : buildUserpassSubneg user pass = .ok ([0x01, (utf8 user).length.toUInt8] ++
      (utf8 user ++ ([(utf8 pass).length.toUInt8] ++ (utf8 pass ++ [])))) := by
    rw [buildUserpassSubneg, huser, hpass]
    simp
  rw [userpassSubneg, hbuild, orFail, andThen, put_bind, take_bind]
  refine reaches_left_put _ ?_
  refine reaches_acceptSOCKS5UserPass (ne_nil_of_fits huser).2 (ne_nil_of_fits hpass).2 ?_
  exact reaches_left_take (w := [0x01, 0x00]) rfl h

variable {f : Except Text (List UInt8 × Text) → Process UInt8 γ}

theorem reaches_methodNegotiation {auth : Auth} (hauth : valid auth)

    (h : Reaches Step ⟨k (), (readRequest ipString).bind f, [], []⟩ s) :
    Reaches Step ⟨(methodNegotiation auth).andThen k, (readSOCKS5Connect ipString).bind f, [], []⟩
      s := by
  have hgreeting : [] ++ buildGreeting auth =
      [0x05, auth.methods.length.toUInt8] ++ (auth.methods ++ []) := by
    rw [buildGreeting, nil_append, append_nil]
  unfold methodNegotiation
  rw [andThen, put_bind, take_bind]
  refine reaches_left_put _ ?_
  rw [hgreeting]
  refine reaches_readSOCKS5Connect (by cases auth <;> simp [Auth.methods])
    (by cases auth <;> simp [Auth.methods]) ?_
  cases auth with
  | none => exact reaches_left_take (w := [0x05, 0x00]) rfl h
  | userPassword user pass =>
    rw [valid, and_eq_true] at hauth
    refine reaches_left_take (w := [0x05, 0x02]) rfl ?_
    have hafter : (afterMethod ipString 0x02).bind f = acceptSOCKS5UserPass.bind fun r =>
        (orFail r fun _ => readRequest ipString).bind f := by
      rw [afterMethod, if_neg (by decide), if_pos rfl, Process.andThen, Process.bind_assoc]
    change Reaches Step ⟨(userpassSubneg user pass).andThen k, (afterMethod ipString 0x02).bind f,
      [], []⟩ s
    rw [hafter]
    exact reaches_userpassSubneg hauth.1 hauth.2 h

theorem reaches_requestConnect {host : Text} (hhost : fits host) {port : UInt16} (hport : port ≠ 0)
    (h : Reaches Step ⟨readReply.andThen k, f (.ok (utf8 host, numeral port.toNat)), [], []⟩ s) :
    Reaches Step ⟨(requestConnect host port).andThen k, (readRequest ipString).bind f, [], []⟩
      s := by
  obtain ⟨hne, hlen⟩ := ne_nil_of_fits hhost
  have hbuild : buildConnectRequest host port = .ok ([0x05, 0x01, 0x00, 0x03] ++
      ([(utf8 host).length.toUInt8] ++ (utf8 host ++ (toBeBytes port ++ [])))) := by
    rw [buildConnectRequest, hhost]
    simp
  rw [requestConnect, hbuild, orFail, andThen, put_bind]
  refine reaches_left_put _ ?_
  exact reaches_readRequest hne hlen hport h

end Client

/-- The client, which sends `xs` once it is connected. -/
def client (host : Text) (port : UInt16) (auth : Auth) (xs : List UInt8) : Socket Unit :=
  (connect host port auth).andThen fun _ => .put xs (.ret (.ok ()))

/-- The relay, which passes on `ys` from the target once it is connected. -/
def relay (ipString : List UInt8 → List UInt8) (dial : List UInt8 → Text → Dial)
    (ys : List UInt8) : Process UInt8 Served :=
  (bridgeInternalSOCKS ipString dial).bind fun served =>
    if served.isBridged then .put ys (.ret served) else .ret served

section Talk

variable {dial : List UInt8 → Text → Dial} {host : Text} {port : UInt16} {auth : Auth}
  {xs ys : List UInt8} {s : Network UInt8 (Except IoError Unit) Served}

theorem reaches_reply (hhost : fits host) (hport : port ≠ 0) (hauth : valid auth)
    {d : Dial} (hdial : dial (utf8 host) (numeral port.toNat) = d)
    (h : Reaches Step ⟨readReply.andThen fun _ => .put xs (.ret (.ok ())),
      if (d.served (utf8 host) (numeral port.toNat)).isBridged
        then .put ys (.ret (d.served (utf8 host) (numeral port.toNat)))
        else .ret (d.served (utf8 host) (numeral port.toNat)), [], d.reply⟩ s) :
    Reaches Step ⟨client host port auth xs, relay ipString dial ys, [], []⟩ s := by
  subst hdial
  rw [client, connect, Process.andThen_assoc, relay, bridgeInternalSOCKS, Process.bind_assoc]
  refine reaches_methodNegotiation hauth (reaches_requestConnect hhost hport ?_)
  rw [Process.put_bind]
  exact reaches_right_put _ h

theorem reaches_bridged (hhost : fits host) (hport : port ≠ 0) (hauth : valid auth)
    (hdial : dial (utf8 host) (numeral port.toNat) = .connected) :
    Reaches Step ⟨client host port auth xs, relay ipString dial ys, [], []⟩
      ⟨.ret (.ok ()), .ret (.bridged (utf8 host) (numeral port.toNat)), xs, ys⟩ := by
  refine reaches_reply hhost hport hauth hdial ?_
  rw [readReply, andThen, take_bind]
  refine reaches_left_take (w := [0x05, 0x00, 0x00, 0x01]) rfl ?_
  have hparse : parseConnectReplyHead [0x05, 0x00, 0x00, 0x01] = .ok .ipv4 := rfl
  rw [hparse, orFail_ok]
  rw [take_bind]
  refine reaches_left_take (w := [0, 0, 0, 0, 0, 0]) rfl ?_
  refine reaches_left_put xs (reaches_right_put ys ?_)
  exact .refl _

theorem reaches_refused (hhost : fits host) (hport : port ≠ 0) (hauth : valid auth)
    (hdial : dial (utf8 host) (numeral port.toNat) ≠ .connected) :
    ∃ e, Reaches Step ⟨client host port auth xs, relay ipString dial ys, [], []⟩
      ⟨.ret (.error e), .ret (.refused (utf8 host) (numeral port.toNat)), [],
        [0, 0, 0, 0, 0, 0]⟩ := by
  -- A reply of four bytes that the client rejects, and six that it does not read.
  have hreply {d : Dial} {w : List UInt8} {e : IoError} (hd : dial (utf8 host)
      (numeral port.toNat) = d) (hserved : d ≠ .connected) (hrep : d.reply = w ++ [0, 0, 0, 0, 0, 0])
      (hlen : w.length = 4) (hparse : parseConnectReplyHead w = .error e) :
      Reaches Step ⟨client host port auth xs, relay ipString dial ys, [], []⟩
        ⟨.ret (.error e), .ret (.refused (utf8 host) (numeral port.toNat)), [],
          [0, 0, 0, 0, 0, 0]⟩ := by
    refine reaches_reply hhost hport hauth hd ?_
    rw [readReply, andThen, take_bind, hrep]
    refine reaches_left_take hlen ?_
    rw [hparse, orFail_error, ret_bind, orFail_error]
    cases d with
    | connected => exact absurd rfl hserved
    | unresolved | unreachable => exact .refl _
  cases hd : dial (utf8 host) (numeral port.toNat) with
  | connected => exact absurd hd hdial
  | unresolved => exact ⟨_, hreply hd (fun h => by cases h) (w := [0x05, 0x02, 0x00, 0x01]) rfl rfl rfl⟩
  | unreachable => exact ⟨_, hreply hd (fun h => by cases h) (w := [0x05, 0x01, 0x00, 0x01]) rfl rfl rfl⟩

end Talk

/-! ## What the relay answers to any client -/

theorem selectMethod_cases (method : UInt8) (methods : List UInt8) :
    selectMethod method methods = method ∨ selectMethod method methods = 0x00 ∨
      selectMethod method methods = 0x02 := by
  induction methods generalizing method with
  | nil => exact .inl rfl
  | cons m methods ih =>
    rw [selectMethod]
    split
    · exact .inr (.inr rfl)
    split
    · rcases ih 0x00 with h | h | h
      · exact .inr (.inl h)
      · exact .inr (.inl h)
      · exact .inr (.inr h)
    · exact ih method

theorem silent_readSOCKS5Address (atyp : UInt8) : (readSOCKS5Address ipString atyp).Silent := by
  rw [readSOCKS5Address]
  split
  · exact silent_take fun _ => trivial
  split
  · refine silent_take fun n => ?_
    split
    · trivial
    · exact silent_take fun _ => trivial
  · split
    · exact silent_take fun _ => trivial
    · trivial

theorem silent_readRequest : (readRequest ipString).Silent := by
  refine silent_take fun req => ?_
  split
  · trivial
  · refine silent_andThen (silent_readSOCKS5Address _) fun host => ?_
    refine silent_take fun portBuf => ?_
    split
    · trivial
    · trivial

variable {input out rest : List UInt8}

theorem exec_acceptSOCKS5UserPass {r : Except Text Unit}
    (h : acceptSOCKS5UserPass.exec input = some (r, out, rest)) :
    ((∃ err, r = .error err) ∧ out = [0x01, 0x01]) ∨ (r = .ok () ∧ out = [0x01, 0x00]) := by
  obtain ⟨head, input₁, -, -, h⟩ := exec_take_eq_some h
  split at h
  · cases h
    exact .inl ⟨⟨_, rfl⟩, rfl⟩
  · obtain ⟨user, input₂, -, -, h⟩ := exec_take_eq_some h
    obtain ⟨passLen, input₃, -, -, h⟩ := exec_take_eq_some h
    obtain ⟨pass, input₄, -, -, h⟩ := exec_take_eq_some h
    cases h
    exact .inr ⟨rfl, rfl⟩

theorem exec_readSOCKS5Connect {r : Except Text (List UInt8 × Text)}
    (h : (readSOCKS5Connect ipString).exec input = some (r, out, rest)) :
    ((∃ err, r = .error err) ∧ (out = [] ∨ out = [0x05, 0xff] ∨ out = [0x05, 0x02, 0x01, 0x01])) ∨
      out = [0x05, 0x00] ∨ out = [0x05, 0x02, 0x01, 0x00] := by
  obtain ⟨head, input₁, -, -, h⟩ := exec_take_eq_some h
  split at h
  · cases h
    exact .inl ⟨⟨_, rfl⟩, .inl rfl⟩
  obtain ⟨methods, input₂, -, -, h⟩ := exec_take_eq_some h
  obtain ⟨out', h, rfl⟩ := exec_put_eq_some h
  rcases selectMethod_cases 0xff methods with hm | hm | hm
  · rw [hm, afterMethod] at h
    cases h
    exact .inl ⟨⟨_, rfl⟩, .inr (.inl (by rw [hm]; rfl))⟩
  · rw [hm, afterMethod] at h
    have hnil : out' = [] := silent_readRequest.out_eq_nil h
    exact .inr (.inl (by rw [hm, hnil]; rfl))
  rw [hm, afterMethod, if_neg (by decide), if_pos rfl, andThen, exec_bind] at h
  obtain ⟨⟨r', out₁, input₃⟩, haccept, h⟩ := bind_eq_some_iff.1 h
  obtain ⟨⟨r'', out₂, input₄⟩, hrequest, heq⟩ := map_eq_some_iff.1 h
  rcases exec_acceptSOCKS5UserPass haccept with ⟨⟨err, rfl⟩, rfl⟩ | ⟨rfl, rfl⟩
  · cases hrequest
    cases heq
    exact .inl ⟨⟨err, rfl⟩, .inr (.inr (by rw [hm]; rfl))⟩
  · have hnil : out₂ = [] := silent_readRequest.out_eq_nil hrequest
    cases heq
    exact .inr (.inr (by rw [hm, hnil]; rfl))

/-- The client reports an error when it reads these bytes. -/
def Fails (p : Socket Unit) (input : List UInt8) : Prop :=
  ∃ e out rest, p.exec input = some (.error e, out, rest)

theorem fails_andThen {p : Socket Unit} (h : Fails p input)
    (f : Unit → Socket Unit) : Fails (p.andThen f) input := by
  obtain ⟨e, out, rest, h⟩ := h
  exact ⟨e, out, rest, exec_andThen_error h f⟩

theorem andThen_fails {p : Socket Unit}
    (h : p.exec input = some (.ok (), out, rest)) {f : Unit → Socket Unit} (hf : Fails (f ()) rest) :
    Fails (p.andThen f) input := by
  obtain ⟨e, out', rest', hf⟩ := hf
  exact ⟨e, out ++ out', rest', by rw [exec_andThen_ok h, hf]; rfl⟩

section Failures

variable {host : Text} {port : UInt16} {auth : Auth}

theorem requestConnect_fails (hhost : fits host) {d : Dial} (hd : d ≠ .connected) :
    Fails (requestConnect host port) d.reply := by
  have hbuild : ∃ req, buildConnectRequest host port = .ok req := by
    rw [buildConnectRequest, hhost]
    exact ⟨_, rfl⟩
  obtain ⟨req, hreq⟩ := hbuild
  rw [Fails, requestConnect, readReply, hreq, orFail_ok, exec_put]
  cases d with
  | connected => exact absurd rfl hd
  | unresolved | unreachable => exact ⟨_, _, _, rfl⟩

theorem exec_userpassSubneg {user pass : Text} (huser : fits user) (hpass : fits pass)
    {w : List UInt8} (hw : w.length = 2) (input : List UInt8) :
    ∃ out, (userpassSubneg user pass).exec (w ++ input) =
      some (parseUserpassReply w, out, input) := by
  have hbuild : ∃ buf, buildUserpassSubneg user pass = .ok buf := by
    rw [buildUserpassSubneg, huser, hpass]
    exact ⟨_, rfl⟩
  obtain ⟨buf, hbuf⟩ := hbuild
  rw [userpassSubneg, hbuf, orFail_ok, exec_put, exec_take_append hw]
  exact ⟨_, rfl⟩

theorem exec_methodNegotiation_subneg (user pass : Text) (input : List UInt8) :
    (methodNegotiation (.userPassword user pass)).exec ([0x05, 0x02] ++ input) =
      ((userpassSubneg user pass).exec input).map fun r =>
        (r.1, buildGreeting (.userPassword user pass) ++ r.2.1, r.2.2) := by
  unfold methodNegotiation
  rw [exec_put, exec_take_append (by rfl)]
  rfl

theorem methodNegotiation_fails (hauth : valid auth) {input : List UInt8}
    (h : input = [0x05, 0xff] ∨ input = [0x05, 0x02, 0x01, 0x01]) :
    Fails (methodNegotiation auth) input := by
  cases auth with
  | none =>
    rcases h with rfl | rfl
    · exact ⟨_, _, _, rfl⟩
    · exact ⟨_, _, _, rfl⟩
  | userPassword user pass =>
    rw [valid, and_eq_true] at hauth
    rcases h with rfl | rfl
    · exact ⟨_, _, _, rfl⟩
    · obtain ⟨out, hout⟩ := exec_userpassSubneg hauth.1 hauth.2 (w := [0x01, 0x01]) rfl []
      have hexec := exec_methodNegotiation_subneg user pass ([0x01, 0x01] ++ [])
      rw [hout] at hexec
      exact ⟨_, _, _, hexec⟩

theorem methodNegotiation_passes (hauth : valid auth) {w : List UInt8}
    (hw : w = [0x05, 0x00] ∨ w = [0x05, 0x02, 0x01, 0x00]) (rest : List UInt8) :
    Fails (methodNegotiation auth) (w ++ rest) ∨
      ∃ out, (methodNegotiation auth).exec (w ++ rest) = some (.ok (), out, rest) := by
  rcases hw with rfl | rfl
  · cases auth with
    | none | userPassword user pass => exact .inr ⟨_, rfl⟩
  cases auth with
  | none => exact .inl ⟨_, _, _, rfl⟩
  | userPassword user pass =>
    rw [valid, and_eq_true] at hauth
    obtain ⟨out, hout⟩ := exec_userpassSubneg hauth.1 hauth.2 (w := [0x01, 0x00]) rfl rest
    have hexec := exec_methodNegotiation_subneg user pass ([0x01, 0x00] ++ rest)
    rw [hout] at hexec
    exact .inr ⟨_, hexec⟩

theorem connect_fails (hhost : fits host) (hauth : valid auth)
    {dial : List UInt8 → Text → Dial} {input out rest : List UInt8} {served : Served}
    (h : (bridgeInternalSOCKS ipString dial).exec input = some (served, out, rest))
    (hserved : served.isBridged = false) :
    (out = [] ∨ out = [0x05, 0x00] ∨ out = [0x05, 0x02, 0x01, 0x00]) ∨
      Fails (connect host port auth) out := by
  rw [bridgeInternalSOCKS, exec_bind] at h
  obtain ⟨⟨r, out₁, input₁⟩, hread, h⟩ := bind_eq_some_iff.1 h
  obtain ⟨⟨served', out₂, input₂⟩, hanswer, heq⟩ := map_eq_some_iff.1 h
  cases heq
  cases r with
  | error err =>
    cases hanswer
    rw [append_nil]
    rcases exec_readSOCKS5Connect hread with ⟨-, hout | hout | hout⟩ | hout | hout
    · exact .inl (.inl hout)
    · exact .inr (fails_andThen (methodNegotiation_fails hauth (.inl hout)) _)
    · exact .inr (fails_andThen (methodNegotiation_fails hauth (.inr hout)) _)
    · exact .inl (.inr (.inl hout))
    · exact .inl (.inr (.inr hout))
  | ok target =>
    obtain ⟨name, number⟩ := target
    obtain ⟨out', hret, hout₂⟩ := exec_put_eq_some hanswer
    cases hret
    have hd : dial name number ≠ .connected := fun hd => by
      rw [hd] at hserved
      cases hserved
    have hpass : out₁ = [0x05, 0x00] ∨ out₁ = [0x05, 0x02, 0x01, 0x00] := by
      rcases exec_readSOCKS5Connect hread with ⟨⟨err, herr⟩, -⟩ | hout
      · cases herr
      · exact hout
    rw [hout₂, append_nil]
    rcases methodNegotiation_passes hauth hpass (dial name number).reply with hfail | ⟨sent, hok⟩
    · exact .inr (fails_andThen hfail _)
    · exact .inr (andThen_fails hok (requestConnect_fails hhost hd))

end Failures

/-- The handshake of the client and the relay, in any order of their reads and writes: when the
    target is connected, the relay has the host and the port, the client succeeds, and all that is
    left on the two streams is what is sent after the handshake; when it is not, the client fails.
    Whatever failure reply the relay sends, to any client, is an error for this one. -/
theorem handshake_agrees {host : Text} (hhost : fits host) {port : UInt16} (hport : port ≠ 0)
    {auth : Auth} (hauth : valid auth) (ipString : List UInt8 → List UInt8)
    (dial : List UInt8 → Text → Dial) (xs ys : List UInt8) :
    (dial (utf8 host) (numeral port.toNat) = .connected →
      Ends Step ⟨client host port auth xs, relay ipString dial ys, [], []⟩
        ⟨.ret (.ok ()), .ret (.bridged (utf8 host) (numeral port.toNat)), xs, ys⟩) ∧
    (dial (utf8 host) (numeral port.toNat) ≠ .connected →
      ∃ e, Ends Step ⟨client host port auth xs, relay ipString dial ys, [], []⟩
        ⟨.ret (.error e), .ret (.refused (utf8 host) (numeral port.toNat)), [],
          [0, 0, 0, 0, 0, 0]⟩) ∧
    ∀ input served out rest,
      (bridgeInternalSOCKS ipString dial).exec input = some (served, out, rest) →
      served.isBridged = false →
      (out = [] ∨ out = [0x05, 0x00] ∨ out = [0x05, 0x02, 0x01, 0x00]) ∨
        Fails (connect host port auth) out := by
  refine ⟨fun hd => ends_of_reaches (reaches_bridged hhost hport hauth hd), fun hd => ?_,
    fun input served out rest h hserved => connect_fails hhost hauth h hserved⟩
  obtain ⟨e, he⟩ := @reaches_refused ipString dial host port auth xs ys hhost hport hauth hd
  exact ⟨e, ends_of_reaches he⟩

/-- A connection to a host and a port, with a user name. -/
theorem handshake_agrees_example :
    Ends Step ⟨client ['h'] 443 (.userPassword ['u'] ['z', 'p']) [1, 2],
        relay id (fun _ _ => .connected) [3], [], []⟩
      ⟨.ret (.ok ()), .ret (.bridged [104] (numeral 443)), [1, 2], [3]⟩ :=
  (handshake_agrees (by decide) (by decide) (by decide) id (fun _ _ => .connected) [1, 2] [3]).1 rfl

end ZeroProxy.Relay.Socks5
