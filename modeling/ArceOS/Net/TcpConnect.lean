import ArceOS.Lib.Scan
import ArceOS.Net.TcpSocket

/-!
# Connecting and Listening

The closures `TcpSocket::connect` and `TcpSocket::listen` of
`axnet/src/smoltcp_impl/tcp.rs` pass to `update_state`, with what they touch besides the
socket: `SOCKET_SET`, `LISTEN_TABLE`, and the `CURR` cursor of `get_ephemeral_port`.
`TcpSocket.lean` keeps of these closures only what they write to the socket; here each
runs on the whole state, one call at a time, and `connectClosure_run` shows the socket it
leaves is one `Closure.run` allows.

`get_ephemeral_port` probes the ports `[0xc000, 0xffff]` cyclically from `CURR`
(`Lib.scan`), at most once each. `smoltcp`'s `Socket::connect` is modelled by what it
documents: `InvalidState` on an open socket, `Unaddressable` for a remote endpoint or a
local port it cannot use or a local address it cannot choose, and otherwise `SynSent`
with both endpoints. The source address the interface would choose is a parameter.

## Main results

- `get_ephemeral_port_cyclic_first_fit`: from any `CURR` in the range, the search fails
  exactly when every port of the range is taken, and otherwise returns the first free port
  at or after `CURR` in cyclic order and leaves `CURR` after it;
- `connect_error_spec`, `listen_error_spec`: a failed closure leaves the socket and the
  listen table as they were, and `SOCKET_SET` too, except for the socket `connect` adds
  for a socket without a handle;
- `tcp_connect_failure_leaks_socket`: a fresh socket whose `connect` fails leaves a socket
  behind in `SOCKET_SET` that nothing refers to.
-/

namespace ArceOS.Net

open ArceOS.Lib

/-! ## §1 Ephemeral ports -/

/-- `PORT_START` of `get_ephemeral_port`. -/
def PORT_START : Nat := 0xc000
/-- `PORT_END` of `get_ephemeral_port`. -/
def PORT_END : Nat := 0xffff

/-- The cyclic successor `CURR` takes after each probe. -/
def nextPort (curr : Nat) : Nat := if curr = PORT_END then PORT_START else curr + 1

/-- `ListenTable::can_listen`. -/
def canListen (s : NetState) (port : Nat) : Bool := (s.tcp port).isNone

/-- `get_ephemeral_port` from `CURR = curr`: the port, and `CURR` after the call. The loop's
    counter `tries` runs from `0` to `PORT_END - PORT_START`, one probe each. -/
def getEphemeralPort (s : NetState) (curr : Nat) : Except AxError Nat × Nat :=
  match scan nextPort (canListen s) (PORT_END - PORT_START + 1) curr with
  | (some port, curr) => (.ok port, curr)
  | (none, curr) => (.error .addrInUse, curr)

/-- How far `port` lies after `curr` in the cyclic order of the range. -/
def cycDist (curr port : Nat) : Nat := (port + 0x4000 - curr) % 0x4000

/-- A port of the range. -/
def InRange (port : Nat) : Prop := PORT_START ≤ port ∧ port ≤ PORT_END

/-- From a port of the range, the `k`-th successor is `k` places on, cyclically. -/
theorem iterate_nextPort {curr : Nat} (hc : InRange curr) (k : Nat) :
    nextPort^[k] curr = PORT_START + (curr - PORT_START + k) % 0x4000 := by
  unfold InRange PORT_START PORT_END at hc
  induction k with
  | zero =>
    rw [Function.iterate_zero_apply]
    unfold PORT_START
    omega
  | succ k ih =>
    rw [Function.iterate_succ_apply', ih]
    unfold nextPort PORT_START PORT_END
    split_ifs <;> omega

theorem inRange_iterate_nextPort {curr : Nat} (hc : InRange curr) (k : Nat) :
    InRange (nextPort^[k] curr) := by
  rw [iterate_nextPort hc]
  unfold InRange PORT_START PORT_END
  omega

theorem cycDist_iterate_nextPort {curr : Nat} (hc : InRange curr) {k : Nat} (hk : k < 0x4000) :
    cycDist curr (nextPort^[k] curr) = k := by
  rw [iterate_nextPort hc]
  unfold InRange PORT_START PORT_END at hc
  unfold cycDist PORT_START
  omega

/-- Each port of the range is reached, `cycDist` successors on. -/
theorem iterate_nextPort_cycDist {curr port : Nat} (hc : InRange curr) (hp : InRange port) :
    nextPort^[cycDist curr port] curr = port := by
  rw [iterate_nextPort hc]
  unfold InRange PORT_START PORT_END at hc hp
  unfold cycDist PORT_START
  omega

/-- `get_ephemeral_port` is a cyclic first-fit over `[0xc000, 0xffff]`. From any `CURR` in
    the range, it fails with `AddrInUse` exactly when every port of the range is taken;
    otherwise it returns a free port of the range with every port before it in cyclic
    order from `CURR` taken, having probed `cycDist CURR port + 1 ≤ 0x4000` ports, and
    leaves `CURR` after it. -/
theorem get_ephemeral_port_cyclic_first_fit (s : NetState) {curr : Nat} (hc : InRange curr) :
    ((getEphemeralPort s curr).1 = .error .addrInUse ↔
        ∀ port, InRange port → canListen s port = false) ∧
    ∀ port, (getEphemeralPort s curr).1 = .ok port →
      InRange port ∧ canListen s port = true ∧ cycDist curr port < 0x4000 ∧
      (getEphemeralPort s curr).2 = nextPort port ∧
      ∀ q, InRange q → cycDist curr q < cycDist curr port → canListen s q = false := by
  have hn : PORT_END - PORT_START + 1 = 0x4000 := rfl
  unfold getEphemeralPort
  rw [hn]
  rcases hscan : scan nextPort (canListen s) 0x4000 curr with ⟨_ | port, curr'⟩
  · -- nothing found: every iterate, hence every port, is taken
    have hnone := (scan_eq_none_iff nextPort (canListen s)).mp (congrArg Prod.fst hscan)
    refine ⟨iff_of_true rfl fun port hp => ?_, fun port h => nomatch h⟩
    rw [← iterate_nextPort_cycDist hc hp]
    refine hnone _ ?_
    unfold cycDist
    omega
  · obtain ⟨k, hk, rfl, hfree, hfirst⟩ :=
      (scan_eq_some_iff nextPort (canListen s)).mp (congrArg Prod.fst hscan)
    have hnext := scan_snd_of_eq_some nextPort (canListen s) (congrArg Prod.fst hscan)
    rw [hscan] at hnext
    refine ⟨iff_of_false (fun h => nomatch h) fun hall => ?_, fun p hp => ?_⟩
    · -- a port was free
      rw [hall _ (inRange_iterate_nextPort hc k)] at hfree
      cases hfree
    · cases hp
      rw [cycDist_iterate_nextPort hc hk]
      refine ⟨inRange_iterate_nextPort hc k, hfree, hk, hnext, fun q hq hlt => ?_⟩
      rw [← iterate_nextPort_cycDist hc hq]
      exact hfirst _ hlt

/-- The search from the first `CURR`, on an empty listen table. -/
theorem ephemeral_port_from_start :
    InRange PORT_START ∧
    (((getEphemeralPort NetState.init PORT_START).1 = .error .addrInUse ↔
        ∀ port, InRange port → canListen NetState.init port = false) ∧
    ∀ port, (getEphemeralPort NetState.init PORT_START).1 = .ok port →
      InRange port ∧ canListen NetState.init port = true ∧ cycDist PORT_START port < 0x4000 ∧
      (getEphemeralPort NetState.init PORT_START).2 = nextPort port ∧
      ∀ q, InRange q → cycDist PORT_START q < cycDist PORT_START port →
        canListen NetState.init q = false) :=
  have hc : InRange PORT_START := ⟨Nat.le_refl _, by decide⟩
  ⟨hc, get_ephemeral_port_cyclic_first_fit NetState.init hc⟩

/-- `CURR` stays in the range. -/
theorem inRange_getEphemeralPort_snd (s : NetState) {curr : Nat} (hc : InRange curr) :
    InRange (getEphemeralPort s curr).2 := by
  unfold getEphemeralPort
  rcases hscan : scan nextPort (canListen s) (PORT_END - PORT_START + 1) curr with
    ⟨_ | port, curr'⟩
  · have h := scan_snd_of_eq_none nextPort (canListen s) (congrArg Prod.fst hscan)
    rw [hscan] at h
    rw [h]
    exact inRange_iterate_nextPort hc _
  · obtain ⟨k, -, rfl, -, -⟩ :=
      (scan_eq_some_iff nextPort (canListen s)).mp (congrArg Prod.fst hscan)
    have h := scan_snd_of_eq_some nextPort (canListen s) (congrArg Prod.fst hscan)
    rw [hscan] at h
    rw [h, ← Function.iterate_succ_apply' nextPort k curr]
    exact inRange_iterate_nextPort hc _

/-- The port found is free. -/
theorem canListen_of_getEphemeralPort {s : NetState} {curr port : Nat}
    (h : (getEphemeralPort s curr).1 = .ok port) : canListen s port = true := by
  unfold getEphemeralPort at h
  rcases hscan : scan nextPort (canListen s) (PORT_END - PORT_START + 1) curr with
    ⟨_ | port', curr'⟩ <;> rw [hscan] at h
  · cases h
  · cases h
    obtain ⟨-, -, -, hfree, -⟩ :=
      (scan_eq_some_iff nextPort (canListen s)).mp (congrArg Prod.fst hscan)
    exact hfree

/-! ## §2 `smoltcp`'s `connect` and the local endpoint -/

/-- `smoltcp::socket::tcp::ConnectError`. -/
inductive ConnectError where
  | invalidState
  | unaddressable
  deriving DecidableEq, Repr

/-- `Socket::is_open`: neither `Closed` nor `TimeWait`. -/
def TcpSock.isOpen (s : TcpSock) : Bool := !(s.state == .closed || s.state == .timeWait)

/-- `Socket::connect` as `smoltcp` documents it, with `src` the source address the interface
    chooses for the remote address, if any. Address `0` is the unspecified one. -/
def smolConnect (s : TcpSock) (src : Option Nat) (remote : IpEndpoint)
    (localEp : IpListenEndpoint) : Except ConnectError TcpSock :=
  if s.isOpen then .error .invalidState
  else if remote.port = 0 ∨ remote.addr = 0 then .error .unaddressable
  else if localEp.port = 0 then .error .unaddressable
  else
    match localEp.addr <|> src with
    | none => .error .unaddressable
    | some 0 => .error .unaddressable
    | some addr => .ok ⟨.synSent, some (⟨addr, localEp.port⟩, remote)⟩

/-- A socket `smoltcp` connected is in `SynSent`, with the remote endpoint it was given. -/
theorem smolConnect_eq_ok {s sock : TcpSock} {src : Option Nat} {remote : IpEndpoint}
    {localEp : IpListenEndpoint} (h : smolConnect s src remote localEp = .ok sock) :
    sock.state = .synSent ∧ ∃ ep, sock.tuple = some (ep, remote) := by
  unfold smolConnect at h
  split_ifs at h
  split at h
  · cases h
  · cases h
  · cases h
    exact ⟨rfl, _, rfl⟩

/-- `SocketSetWrapper::new_tcp_socket()`: a closed socket. -/
def newTcpSocket : Sock := .tcp ⟨.closed, none⟩

/-- What `connect` and `listen` read and write: the socket, `SOCKET_SET` with
    `LISTEN_TABLE`, and `CURR`. -/
structure Host where
  sk : TcpSocket
  net : NetState
  curr : Nat

/-- `bound_endpoint`: the socket's local endpoint, with a port from `get_ephemeral_port`
    when it has none, and `CURR` after; `none` is the panic of `assert_ne!(port, 0)`. -/
def boundEndpoint (h : Host) : Option (Except AxError IpListenEndpoint × Nat) :=
  let r : Except AxError Nat × Nat :=
    if h.sk.localAddr.port ≠ 0 then (.ok h.sk.localAddr.port, h.curr)
    else getEphemeralPort h.net h.curr
  match r with
  | (.error e, curr) => some (.error e, curr)
  | (.ok port, curr) =>
    if port = 0 then none
    else
      let addr := if h.sk.localAddr.addr = 0 then none else some h.sk.localAddr.addr
      some (.ok ⟨addr, port⟩, curr)

/-- The port bound is the socket's own, or a free one when it had none. -/
theorem boundEndpoint_eq_ok {h : Host} {bound : IpListenEndpoint} {curr : Nat}
    (hb : boundEndpoint h = some (.ok bound, curr)) :
    bound.port = h.sk.localAddr.port ∨
      (h.sk.localAddr.port = 0 ∧ canListen h.net bound.port = true) := by
  unfold boundEndpoint at hb
  by_cases hp : h.sk.localAddr.port = 0
  · simp only [hp, ne_eq, not_true_eq_false, if_false] at hb
    rcases hg : getEphemeralPort h.net h.curr with ⟨_ | port, curr'⟩ <;> rw [hg] at hb
    · cases hb
    · dsimp only at hb
      split_ifs at hb <;> cases hb <;>
        exact .inr ⟨hp, canListen_of_getEphemeralPort (congrArg Prod.fst hg)⟩
  · simp only [hp, ne_eq, not_false_eq_true, if_true] at hb
    split_ifs at hb <;> cases hb <;> exact .inl rfl

/-- `handle.unwrap_or_else(|| SOCKET_SET.add(new_tcp_socket()))`: the handle, and the set. -/
def handleOrAdd (handle : Option Nat) (sockets : List (Option Sock)) : Nat × List (Option Sock) :=
  match handle with
  | some handle => (handle, sockets)
  | none => Slots.add sockets newTcpSocket

/-! ## §3 The closures and their `update_state` -/

namespace Host

/-- The closure of `connect`, run in `BUSY`; `none` is a panic. -/
def connectClosure (h : Host) (src : Option Nat) (remote : IpEndpoint) :
    Option (Except AxError Unit × Host) :=
  let (handle, sockets) := handleOrAdd h.sk.handle h.net.sockets
  let h := { h with net := { h.net with sockets := sockets } }
  match boundEndpoint h with
  | none => none
  | some (.error e, curr) => some (.error e, { h with curr := curr })
  | some (.ok bound, curr) =>
    let h := { h with curr := curr }
    -- `SOCKET_SET.with_socket_mut::<tcp::Socket, _, _>(handle, ..)`
    match getTcp sockets handle with
    | none => none
    | some sock =>
      match smolConnect sock src remote bound with
      | .error .invalidState => some (.error .badState, h)
      | .error .unaddressable => some (.error .connectionRefused, h)
      | .ok sock =>
        match sock.tuple with
        | none => none
        | some (localEp, remoteEp) =>
          some (.ok (),
            { h with
              sk := { h.sk with localAddr := localEp, peerAddr := remoteEp, handle := some handle }
              net := { h.net with sockets := sockets.set handle (some (.tcp sock)) } })

/-- The closure of `listen`, run in `BUSY`: the port is written before the listen table is
    tried. -/
def listenClosure (h : Host) : Option (Except AxError Unit × Host) :=
  match boundEndpoint h with
  | none => none
  | some (.error e, curr) => some (.error e, { h with curr := curr })
  | some (.ok bound, curr) =>
    let h := { h with curr := curr, sk := { h.sk with localAddr.port := bound.port } }
    match ArceOS.Net.listen h.net bound with
    | none => none
    | some (r, net) => some (r, { h with net := net })

/-- `update_state(expect, new, f)` with no other thread about: the state when it is not
    `expect`, else what `f` returns on the socket in `BUSY`, with `new` stored after, or
    `expect` when `f` failed. -/
def updateState (h : Host) (expect new : UInt8)
    (f : Host → Option (Except AxError Unit × Host)) :
    Option (Except UInt8 (Except AxError Unit) × Host) :=
  if h.sk.state ≠ expect then some (.error h.sk.state, h)
  else
    match f { h with sk := { h.sk with state := STATE_BUSY } } with
    | none => none
    | some (r, h') =>
      some (.ok r, { h' with sk := { h'.sk with state := if r.isOk then new else expect } })

/-- `connect` up to its wait for the handshake, which `TcpSocket.lean` models:
    `AlreadyExists` unless the socket is `CLOSED`. -/
def connect (h : Host) (src : Option Nat) (remote : IpEndpoint) :
    Option (Except AxError Unit × Host) :=
  match h.updateState STATE_CLOSED STATE_CONNECTING (connectClosure · src remote) with
  | none => none
  | some (.error _, h) => some (.error .alreadyExists, h)
  | some (.ok r, h) => some (r, h)

/-- `listen`: a socket that is not `CLOSED` is left alone, with `Ok`. -/
def listen (h : Host) : Option (Except AxError Unit × Host) :=
  match h.updateState STATE_CLOSED STATE_LISTENING listenClosure with
  | none => none
  | some (.error _, h) => some (.ok (), h)
  | some (.ok r, h) => some (r, h)

end Host

/-! ## §4 Failed calls -/

namespace Host

/-- A failed `connect` closure wrote nothing to the socket or the listen table; the set
    keeps the socket added for a socket without a handle. -/
theorem connectClosure_error {h h' : Host} {src : Option Nat} {remote : IpEndpoint}
    {e : AxError} (hc : connectClosure h src remote = some (.error e, h')) :
    h'.sk = h.sk ∧ h'.net.tcp = h.net.tcp ∧
      h'.net.sockets = (handleOrAdd h.sk.handle h.net.sockets).2 := by
  unfold connectClosure at hc
  rcases hho : handleOrAdd h.sk.handle h.net.sockets with ⟨handle, sockets⟩
  rw [hho] at hc
  dsimp only at hc
  split at hc
  · cases hc
  · cases hc
    exact ⟨rfl, rfl, rfl⟩
  · split at hc
    · cases hc
    · split at hc
      · cases hc
        exact ⟨rfl, rfl, rfl⟩
      · cases hc
        exact ⟨rfl, rfl, rfl⟩
      · -- `smoltcp` accepted: the closure returns `Ok`
        split at hc <;> cases hc

/-- What `update_state` can do: give back the state, changing nothing, or run the closure
    in `BUSY` and store `new` after it, or `expect` when it failed. -/
theorem updateState_eq_some {h h' : Host} {expect new : UInt8}
    {f : Host → Option (Except AxError Unit × Host)} {res : Except UInt8 (Except AxError Unit)}
    (hu : h.updateState expect new f = some (res, h')) :
    (h.sk.state ≠ expect ∧ res = .error h.sk.state ∧ h' = h) ∨
    (h.sk.state = expect ∧ ∃ r h₁, f { h with sk := { h.sk with state := STATE_BUSY } } =
        some (r, h₁) ∧ res = .ok r ∧
      h' = { h₁ with sk := { h₁.sk with state := if r.isOk then new else expect } }) := by
  unfold updateState at hu
  split_ifs at hu with hst
  · cases hu
    exact .inl ⟨hst, rfl, rfl⟩
  · split at hu
    · cases hu
    · rename_i r h₁ hf
      cases hu
      exact .inr ⟨not_not.mp hst, r, h₁, hf, rfl, rfl⟩

/-- A failed `connect` leaves the socket and the listen table as they were. `SOCKET_SET`
    keeps the socket the closure added when the socket had no handle. -/
theorem connect_error_spec {h h' : Host} {src : Option Nat} {remote : IpEndpoint}
    {e : AxError} (hc : connect h src remote = some (.error e, h')) :
    h'.sk = h.sk ∧ h'.net.tcp = h.net.tcp ∧
      h'.net.sockets = if h.sk.state = STATE_CLOSED then
        (handleOrAdd h.sk.handle h.net.sockets).2 else h.net.sockets := by
  unfold connect at hc
  rcases hu : h.updateState STATE_CLOSED STATE_CONNECTING (connectClosure · src remote) with
    _ | ⟨res, h₁⟩ <;> rw [hu] at hc
  · cases hc
  rcases updateState_eq_some hu with ⟨hst, rfl, rfl⟩ | ⟨hst, r, h₂, hf, rfl, rfl⟩
  · -- not `CLOSED`: `AlreadyExists`, and nothing changes
    cases hc
    exact ⟨rfl, rfl, if_neg hst ▸ rfl⟩
  · -- the closure failed, and `update_state` put `CLOSED` back
    cases hc
    obtain ⟨hsk, htcp, hsock⟩ := connectClosure_error hf
    refine ⟨?_, htcp, ?_⟩
    · simp only [hsk, Except.isOk, Except.toBool, Bool.false_eq_true, if_false, ← hst]
    · rw [if_pos hst, hsock]

/-- A `connect` closure that returned `Ok` wrote the endpoints and the handle. -/
theorem connectClosure_ok {h h' : Host} {src : Option Nat} {remote : IpEndpoint}
    (hc : connectClosure h src remote = some (.ok (), h')) :
    ∃ localEp, h'.sk =
      { h.sk with
        localAddr := localEp
        peerAddr := remote
        handle := some (handleOrAdd h.sk.handle h.net.sockets).1 } := by
  unfold connectClosure at hc
  rcases hho : handleOrAdd h.sk.handle h.net.sockets with ⟨handle, sockets⟩
  rw [hho] at hc
  dsimp only at hc
  split at hc
  · cases hc
  · cases hc
  · split at hc
    · cases hc
    · split at hc
      · cases hc
      · cases hc
      · rename_i sock hsmol
        obtain ⟨-, ep, hep⟩ := smolConnect_eq_ok hsmol
        split at hc
        · cases hc
        · rename_i localEp remoteEp htuple
          rw [hep] at htuple
          cases htuple
          cases hc
          exact ⟨_, rfl⟩

/-- The socket a `connect` closure leaves is one `Closure.run` of `TcpSocket.lean` allows:
    the sequential model refines the socket's own. -/
theorem connectClosure_run {h h' : Host} {src : Option Nat} {remote : IpEndpoint}
    {r : Except AxError Unit} (hc : connectClosure h src remote = some (r, h'))
    (smol : TcpState) :
    ∃ hd ep, (TcpSocket.Closure.connect remote).run h.sk smol r.isOk hd ep =
      some (r.isOk, h'.sk, if r.isOk then .synSent else smol) := by
  rcases r with e | ⟨⟩
  · obtain ⟨hsk, -, -⟩ := connectClosure_error hc
    refine ⟨0, UNSPECIFIED_ENDPOINT, ?_⟩
    simp [TcpSocket.Closure.run, hsk, Except.isOk, Except.toBool]
  · obtain ⟨localEp, hsk⟩ := connectClosure_ok hc
    refine ⟨(Slots.add h.net.sockets newTcpSocket).1, localEp, ?_⟩
    -- the handle is the old one, or the one `SOCKET_SET.add` gave
    have hhandle : (handleOrAdd h.sk.handle h.net.sockets).1 =
        h.sk.handle.getD (Slots.add h.net.sockets newTcpSocket).1 := by
      unfold handleOrAdd
      cases h.sk.handle <;> rfl
    simp [TcpSocket.Closure.run, hsk, hhandle, Except.isOk, Except.toBool]

/-- `ListenTable::listen` fails only on a taken port, and then changes nothing. -/
theorem listen_eq_error {s s' : NetState} {ep : IpListenEndpoint} {e : AxError}
    (h : ArceOS.Net.listen s ep = some (.error e, s')) :
    s' = s ∧ canListen s ep.port = false := by
  unfold ArceOS.Net.listen at h
  split_ifs at h
  split at h
  · cases h
  · rename_i entry ht
    cases h
    refine ⟨rfl, ?_⟩
    unfold canListen
    rw [ht]
    rfl

/-- A failed `listen` closure leaves the socket and the listen table as they were: when
    the socket had no port, the port it takes is free, so the listen table accepts it. -/
theorem listenClosure_error {h h' : Host} {e : AxError}
    (hc : listenClosure h = some (.error e, h')) : h'.sk = h.sk ∧ h'.net = h.net := by
  unfold listenClosure at hc
  split at hc
  · cases hc
  · cases hc
    exact ⟨rfl, rfl⟩
  · rename_i bound curr hb
    dsimp only at hc
    split at hc
    · cases hc
    · rename_i r net hl
      cases hc
      obtain ⟨rfl, htaken⟩ := listen_eq_error hl
      rcases boundEndpoint_eq_ok hb with hport | ⟨-, hfree⟩
      · refine ⟨?_, rfl⟩
        dsimp only
        rw [hport]
      · -- the ephemeral port was free, so the listen table cannot have refused it
        rw [hfree] at htaken
        cases htaken

/-- A failed `listen` leaves the socket and the listen table as they were. -/
theorem listen_error_spec {h h' : Host} {e : AxError} (hc : listen h = some (.error e, h')) :
    h'.sk = h.sk ∧ h'.net = h.net := by
  unfold listen at hc
  rcases hu : h.updateState STATE_CLOSED STATE_LISTENING listenClosure with
    _ | ⟨res, h₁⟩ <;> rw [hu] at hc
  · cases hc
  rcases updateState_eq_some hu with ⟨-, rfl, rfl⟩ | ⟨hst, r, h₂, hf, rfl, rfl⟩
  · cases hc
  · cases hc
    obtain ⟨hsk, hnet⟩ := listenClosure_error hf
    refine ⟨?_, hnet⟩
    simp only [hsk, Except.isOk, Except.toBool, Bool.false_eq_true, if_false, ← hst]

end Host

/-- A fresh socket whose `connect` fails, here on the unspecified remote address, is put
    back to `CLOSED` without a handle, but the socket its closure added to `SOCKET_SET`
    stays there, with nothing referring to it. -/
theorem tcp_connect_failure_leaks_socket :
    Host.connect ⟨TcpSocket.new, NetState.init, PORT_START⟩ (some 1) ⟨0, 80⟩ =
      some (.error .connectionRefused,
        ⟨TcpSocket.new, ⟨[some newTcpSocket], fun _ => none⟩, PORT_START + 1⟩) :=
  rfl

end ArceOS.Net
