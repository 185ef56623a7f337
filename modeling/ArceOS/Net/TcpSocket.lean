import ArceOS.Net.ListenTable

/-!
# The TCP Socket State Machine

`TcpSocket` of `axnet/src/smoltcp_impl/tcp.rs` under any interleaving of threads. The
socket's `state` is an `AtomicU8` holding one of five constants; `update_state(expect,
new, f)` moves it from `expect` to `BUSY` by `compare_exchange`, runs `f`, and stores
`new`, or `expect` when `f` fails, so that the thread holding `BUSY` alone writes
`handle`, `local_addr` and `peer_addr`. `poll_connect`, called by `poll` when it has read
`CONNECTING` and by `connect`'s `block_on` loop, stores `CONNECTED` or `CLOSED` with a
plain `set_state`, without looking at the state again.

A thread's place in a call is its `Pc`; a step is one atomic access to `state` with the
code up to the next one. `poll_connect` runs under the `SOCKET_SET` lock, so it is one
step. The `smoltcp` socket behind `handle` is a third party: `poll_interfaces` and the
peer may move it to any state at any time (`Label.env`); `connect` on it yields
`SynSent`, and `close` is as `smoltcp` documents it. Any thread may call
`set_nonblocking` at any time, so at each check of the flag both branches are possible:
the thread's label chooses. `accept` only reads the socket, and is left out.

## Main results

- `inv_of_reachable`, `handle_of_reachable`: in every reachable state `state` is one of
  the five constants, and every `handle.unwrap()` of `poll_connect`, `poll_stream`,
  `recv`, `send` and `shutdown` finds a handle;
- `fresh_step_spec`: in runs where no `poll_connect` stores over a state other than
  `CONNECTING`, every change of `state` is an edge of the documented diagram, and no
  thread changes the socket while another holds `BUSY`;
- `tcp_stale_poll_connect`: a `poll` that read `CONNECTING` before another thread
  completed the connection later stores `CLOSED` over `CONNECTED`, and `CONNECTED` over
  the `BUSY` of a `shutdown`.
-/

namespace ArceOS.Net

open ArceOS.Lib

/-! ## §1 The socket -/

/-- `STATE_CLOSED`. -/
def STATE_CLOSED : UInt8 := 0
/-- `STATE_BUSY`. -/
def STATE_BUSY : UInt8 := 1
/-- `STATE_CONNECTING`. -/
def STATE_CONNECTING : UInt8 := 2
/-- `STATE_CONNECTED`. -/
def STATE_CONNECTED : UInt8 := 3
/-- `STATE_LISTENING`. -/
def STATE_LISTENING : UInt8 := 4

@[simp] theorem closed_ne_connecting : STATE_CLOSED ≠ STATE_CONNECTING := by decide
@[simp] theorem closed_ne_connected : STATE_CLOSED ≠ STATE_CONNECTED := by decide
@[simp] theorem busy_ne_connecting : STATE_BUSY ≠ STATE_CONNECTING := by decide
@[simp] theorem busy_ne_connected : STATE_BUSY ≠ STATE_CONNECTED := by decide
@[simp] theorem listening_ne_connecting : STATE_LISTENING ≠ STATE_CONNECTING := by decide
@[simp] theorem listening_ne_connected : STATE_LISTENING ≠ STATE_CONNECTED := by decide
@[simp] theorem connecting_ne_connected : STATE_CONNECTING ≠ STATE_CONNECTED := by decide
@[simp] theorem closed_ne_busy : STATE_CLOSED ≠ STATE_BUSY := by decide
@[simp] theorem connecting_ne_busy : STATE_CONNECTING ≠ STATE_BUSY := by decide
@[simp] theorem connected_ne_busy : STATE_CONNECTED ≠ STATE_BUSY := by decide
@[simp] theorem listening_ne_busy : STATE_LISTENING ≠ STATE_BUSY := by decide

/-- `UNSPECIFIED_ENDPOINT`: address `0.0.0.0`, port `0`. -/
def UNSPECIFIED_ENDPOINT : IpEndpoint := ⟨0, 0⟩

/-- `TcpSocket`, without `nonblock` (see the module doc). -/
structure TcpSocket where
  state : UInt8
  handle : Option Nat
  localAddr : IpEndpoint
  peerAddr : IpEndpoint
  deriving DecidableEq, Repr

/-- `TcpSocket::new`. -/
def TcpSocket.new : TcpSocket := ⟨STATE_CLOSED, none, UNSPECIFIED_ENDPOINT, UNSPECIFIED_ENDPOINT⟩

/-- `tcp::Socket::close`. -/
def TcpState.close : TcpState → TcpState
  | .listen => .closed
  | .synSent => .closed
  | .synReceived => .finWait1
  | .established => .finWait1
  | .closeWait => .lastAck
  | st => st

namespace TcpSocket

/-- The `compare_exchange(expect, STATE_BUSY)` of `update_state`: whether it succeeded. -/
def updateState (sk : TcpSocket) (expect : UInt8) : Bool × TcpSocket :=
  if sk.state = expect then (true, { sk with state := STATE_BUSY }) else (false, sk)

/-- `set_state`. -/
def setState (sk : TcpSocket) (v : UInt8) : TcpSocket := { sk with state := v }

/-- `poll_connect` on the `smoltcp` state `smol`: the socket and whether it is writable;
    `none` is the panic of `handle.unwrap()`. -/
def pollConnect (sk : TcpSocket) (smol : TcpState) : Option (TcpSocket × Bool) :=
  match sk.handle with
  | none => none
  | some _ =>
    match smol with
    | .synSent => some (sk, false)
    | .established => some (sk.setState STATE_CONNECTED, true)
    | _ =>
      some ({ sk with localAddr := UNSPECIFIED_ENDPOINT, peerAddr := UNSPECIFIED_ENDPOINT }.setState
        STATE_CLOSED, true)

/-! ## §2 The closures of `update_state` -/

/-- The closure an `update_state` call runs, with the arguments of its caller. -/
inductive Closure where
  | connect (remote : IpEndpoint)
  | bind (addr : IpEndpoint)
  | listen
  | shutdownStream
  | shutdownListener
  deriving DecidableEq, Repr

namespace Closure

/-- The `expect` of the `update_state` call. -/
def expect : Closure → UInt8
  | .connect _ => STATE_CLOSED
  | .bind _ => STATE_CLOSED
  | .listen => STATE_CLOSED
  | .shutdownStream => STATE_CONNECTED
  | .shutdownListener => STATE_LISTENING

/-- The `new` of the `update_state` call. -/
def new : Closure → UInt8
  | .connect _ => STATE_CONNECTING
  | .bind _ => STATE_CLOSED
  | .listen => STATE_LISTENING
  | .shutdownStream => STATE_CLOSED
  | .shutdownListener => STATE_CLOSED

/-- The closure on the socket and its `smoltcp` state: whether it returned `Ok`, with the
    fields it wrote; `none` is a panic. What the network stack gives it is `ok` (whether
    `smoltcp`'s `connect`, `get_ephemeral_port` or `LISTEN_TABLE.listen` succeeded), the
    handle `h` a new socket gets, and the endpoint `ep` `smoltcp` binds, whose port is the
    ephemeral one. -/
def run (c : Closure) (sk : TcpSocket) (smol : TcpState) (ok : Bool) (h : Nat)
    (ep : IpEndpoint) : Option (Bool × TcpSocket × TcpState) :=
  match c with
  | .connect remote =>
    if ok then
      some (true, { sk with handle := some (sk.handle.getD h), localAddr := ep, peerAddr := remote },
        .synSent)
    else some (false, sk, smol)
  | .bind addr =>
    let addr := if addr.port = 0 then { addr with port := ep.port } else addr
    if ok ∧ sk.localAddr = UNSPECIFIED_ENDPOINT then
      some (true, { sk with localAddr := addr }, smol)
    else some (false, sk, smol)
  | .listen =>
    -- `bound_endpoint`, then the port is written before `LISTEN_TABLE.listen` is tried
    let port := if sk.localAddr.port ≠ 0 then sk.localAddr.port else ep.port
    if port = 0 then none
    else some (ok, { sk with localAddr := { sk.localAddr with port := port } }, smol)
  | .shutdownStream =>
    match sk.handle with
    | none => none
    | some _ => some (true, { sk with localAddr := UNSPECIFIED_ENDPOINT }, smol.close)
  | .shutdownListener => some (true, { sk with localAddr := UNSPECIFIED_ENDPOINT }, smol)

end Closure

/-! ## §3 Threads -/

/-- Where a thread stands. -/
inductive Pc where
  | idle
  /-- holds `BUSY` in `update_state`; the closure is next -/
  | busy (c : Closure)
  /-- holds `BUSY`; the closure returned and the store of `v` is next -/
  | store (c : Closure) (v : UInt8)
  /-- in `shutdown`, before its `update_state(LISTENING, CLOSED, ..)` -/
  | shutdownListener
  /-- in `connect`'s `block_on`; `poll_connect` is next -/
  | connectLoop
  /-- in `connect`, after a writable `poll_connect`; the check of `state` is next -/
  | connectCheck
  /-- `poll` read `CONNECTING`; `poll_connect` is next -/
  | pollConnect
  /-- `poll`, `recv` or `send` read `CONNECTED`; `handle.unwrap()` is next -/
  | useHandle
  deriving DecidableEq, Repr

/-- What a thread does next; the choices are those the thread cannot see coming: the
    outcome of a closure, the flag `nonblock` (`wait`), the call it starts. -/
inductive Act where
  | connect (remote : IpEndpoint)
  | bind (addr : IpEndpoint)
  | listen
  | shutdown
  | poll
  /-- `recv` or `send` -/
  | io
  | run (ok : Bool) (h : Nat) (ep : IpEndpoint)
  | store (wait : Bool)
  | next (wait : Bool)
  deriving DecidableEq, Repr

/-- A step of thread `t`, or one of the network stack. -/
inductive Label where
  | act (t : Nat) (a : Act)
  | env (smol : TcpState)

/-- Where a thread goes when its `update_state` call fails its `compare_exchange`. -/
def Closure.onFail : Closure → Pc
  | .shutdownStream => .shutdownListener
  | _ => .idle

/-- Where a thread goes after storing `v` for closure `c`: `connect` enters `block_on`
    unless it is nonblocking, and `shutdown` goes on with the listener. -/
def Closure.after : Closure → UInt8 → Bool → Pc
  | .connect _, v, wait => if v = STATE_CONNECTING ∧ wait then .connectLoop else .idle
  | .shutdownStream, _, _ => .shutdownListener
  | _, _, _ => .idle

/-- The socket, the `smoltcp` state of its handle, and each thread's place. -/
structure Sys where
  sk : TcpSocket
  smol : TcpState
  pcs : Nat → Pc

/-- A new socket, every thread outside its code. -/
def Sys.init : Sys := ⟨TcpSocket.new, .closed, fun _ => .idle⟩

namespace Sys

/-- Thread `t` moved to `pc`. -/
def setPc (s : Sys) (t : Nat) (pc : Pc) : Sys := { s with pcs := Function.update s.pcs t pc }

/-- `update_state`'s `compare_exchange` for closure `c` by thread `t`. -/
def start (s : Sys) (t : Nat) (c : Closure) : Sys :=
  let r := s.sk.updateState c.expect
  { s with sk := r.2, pcs := Function.update s.pcs t (if r.1 then .busy c else c.onFail) }

/-- `poll_connect` by thread `t`, which goes to `writable` or to `blocked`. -/
def pollConnect (s : Sys) (t : Nat) (writable blocked : Pc) : Option Sys :=
  (s.sk.pollConnect s.smol).map fun (sk, w) =>
    { s with sk := sk, pcs := Function.update s.pcs t (if w then writable else blocked) }

/-- A step of thread `t`; `none` when `a` is not what it can do next, or panics. -/
def step (s : Sys) (t : Nat) (a : Act) : Option Sys :=
  match s.pcs t, a with
  | .idle, .connect remote => some (s.start t (.connect remote))
  | .idle, .bind addr => some (s.start t (.bind addr))
  | .idle, .listen => some (s.start t .listen)
  | .idle, .shutdown => some (s.start t .shutdownStream)
  | .shutdownListener, .next _ => some (s.start t .shutdownListener)
  | .idle, .poll =>
    some (s.setPc t (if s.sk.state = STATE_CONNECTING then .pollConnect
      else if s.sk.state = STATE_CONNECTED then .useHandle else .idle))
  | .idle, .io => some (s.setPc t (if s.sk.state = STATE_CONNECTED then .useHandle else .idle))
  | .busy c, .run ok h ep =>
    (c.run s.sk s.smol ok h ep).map fun (r, sk, smol) =>
      { sk := sk, smol := smol,
        pcs := Function.update s.pcs t (.store c (if r then c.new else c.expect)) }
  | .store c v, .store wait =>
    some { s with sk := s.sk.setState v, pcs := Function.update s.pcs t (c.after v wait) }
  | .connectLoop, .next wait => s.pollConnect t .connectCheck (if wait then .connectLoop else .idle)
  | .pollConnect, .next _ => s.pollConnect t .idle .idle
  | .connectCheck, .next _ => some (s.setPc t .idle)
  | .useHandle, .next _ => if s.sk.handle.isSome then some (s.setPc t .idle) else none
  | _, _ => none

end Sys

/-- One step of the system. -/
inductive Step : Sys → Label → Sys → Prop
  | act {s s' : Sys} {t : Nat} {a : Act} : s.step t a = some s' → Step s (.act t a) s'
  | env {s : Sys} (smol : TcpState) : Step s (.env smol) { s with smol := smol }

/-- One socket, used by any number of threads. -/
def tcpSystem : LTS Sys Label := ⟨(· = Sys.init), Step⟩

/-! ## §4 What each piece does to the socket -/

theorem updateState_eq (sk : TcpSocket) (expect : UInt8) :
    sk.updateState expect =
      if sk.state = expect then (true, sk.setState STATE_BUSY) else (false, sk) := rfl

/-- `poll_connect` needs a handle, keeps it, and leaves the state as it was or stores
    `CONNECTED` or `CLOSED`; it is writable unless it left the state as it was. -/
theorem pollConnect_spec {sk sk' : TcpSocket} {smol : TcpState} {w : Bool}
    (h : sk.pollConnect smol = some (sk', w)) :
    sk.handle.isSome = true ∧ sk'.handle = sk.handle ∧
      ((sk'.state = sk.state ∧ sk' = sk) ∨ sk'.state = STATE_CONNECTED ∨
        sk'.state = STATE_CLOSED) := by
  unfold pollConnect at h
  split at h
  · cases h
  · rename_i hh
    have hsome : sk.handle.isSome = true := by rw [hh]; rfl
    split at h <;> simp only [Option.some.injEq, Prod.mk.injEq] at h <;> obtain ⟨rfl, -⟩ := h
    · exact ⟨hsome, rfl, .inl ⟨rfl, rfl⟩⟩
    · exact ⟨hsome, rfl, .inr (.inl rfl)⟩
    · exact ⟨hsome, rfl, .inr (.inr rfl)⟩

/-- A closure leaves `state` to `update_state`, never drops the handle, has one when it
    returns `Ok` for `connect`, and fails only for the calls whose `expect` is `CLOSED`. -/
theorem Closure.run_spec {c : Closure} {sk sk' : TcpSocket} {smol smol' : TcpState}
    {ok : Bool} {h : Nat} {ep : IpEndpoint} {r : Bool}
    (hr : c.run sk smol ok h ep = some (r, sk', smol')) :
    sk'.state = sk.state ∧ (sk.handle.isSome = true → sk'.handle.isSome = true) ∧
      (r = true → c.new = STATE_CONNECTING → sk'.handle.isSome = true) ∧
      (r = false → c.expect = STATE_CLOSED) := by
  unfold Closure.run at hr
  split at hr
  · split_ifs at hr <;> simp only [Option.some.injEq, Prod.mk.injEq] at hr <;>
      obtain ⟨rfl, rfl, -⟩ := hr
    · exact ⟨rfl, fun _ => rfl, fun _ _ => rfl, fun h => absurd h (by decide)⟩
    · exact ⟨rfl, fun h => h, fun h => absurd h (by decide), fun _ => rfl⟩
  · split_ifs at hr <;> simp only [Option.some.injEq, Prod.mk.injEq] at hr <;>
      obtain ⟨rfl, rfl, -⟩ := hr
    all_goals exact ⟨rfl, fun h => h, fun _ h => absurd h closed_ne_connecting, fun _ => rfl⟩
  · dsimp only at hr
    split_ifs at hr <;> cases hr
    all_goals exact ⟨rfl, fun h => h, fun _ h => absurd h listening_ne_connecting, fun _ => rfl⟩
  · split at hr
    · cases hr
    · simp only [Option.some.injEq, Prod.mk.injEq] at hr
      obtain ⟨rfl, rfl, -⟩ := hr
      exact ⟨rfl, fun h => h, fun _ h => absurd h closed_ne_connecting, fun h => absurd h (by decide)⟩
  · simp only [Option.some.injEq, Prod.mk.injEq] at hr
    obtain ⟨rfl, rfl, -⟩ := hr
    exact ⟨rfl, fun h => h, fun _ h => absurd h closed_ne_connecting, fun h => absurd h (by decide)⟩

/-! ## §5 The invariant of every run -/

/-- The five values `state` is meant to hold. -/
def ValidState (v : UInt8) : Prop :=
  v = STATE_CLOSED ∨ v = STATE_BUSY ∨ v = STATE_CONNECTING ∨ v = STATE_CONNECTED ∨
    v = STATE_LISTENING

/-- The places from which the code unwraps `handle`, and the store of `CONNECTING` that
    follows `connect`'s write of it. -/
def Pc.needsHandle : Pc → Bool
  | .busy .shutdownStream => true
  | .store (.connect _) v => v == STATE_CONNECTING
  | .connectLoop => true
  | .pollConnect => true
  | .useHandle => true
  | _ => false

/-- `state` is one of the five constants; a pending store is of `new`, or of `CLOSED` after
    a failure; and without a handle the socket is neither `CONNECTING` nor `CONNECTED` and
    no thread is about to unwrap it. -/
structure Inv (s : Sys) : Prop where
  valid : ValidState s.sk.state
  stores : ∀ t c v, s.pcs t = .store c v → v = c.new ∨ v = STATE_CLOSED
  handle : s.sk.handle = none → s.sk.state ≠ STATE_CONNECTING ∧
    s.sk.state ≠ STATE_CONNECTED ∧ ∀ t, (s.pcs t).needsHandle = false

theorem inv_init : Inv Sys.init :=
  ⟨.inl rfl, fun _ _ _ h => (nomatch h), fun _ => ⟨closed_ne_connecting, closed_ne_connected,
    fun _ => rfl⟩⟩

theorem Closure.new_cases (c : Closure) :
    c.new = STATE_CONNECTING ∨ c.new = STATE_CLOSED ∨ c.new = STATE_LISTENING := by
  cases c <;> simp only [Closure.new, true_or, or_true]

/-- Only `connect` moves to `CONNECTING`. -/
theorem Closure.eq_connect_of_new {c : Closure} (h : c.new = STATE_CONNECTING) :
    ∃ r, c = .connect r := by
  cases c with
  | connect r => exact ⟨r, rfl⟩
  | bind _ => exact absurd h closed_ne_connecting
  | listen => exact absurd h listening_ne_connecting
  | shutdownStream => exact absurd h closed_ne_connecting
  | shutdownListener => exact absurd h closed_ne_connecting

/-- What `update_state` stores after a closure is one of the five, and not `CONNECTED`. -/
theorem valid_of_store {c : Closure} {v : UInt8} (hv : v = c.new ∨ v = STATE_CLOSED) :
    ValidState v ∧ v ≠ STATE_CONNECTED := by
  rcases hv with rfl | rfl
  · rcases c.new_cases with h | h | h <;> rw [h]
    · exact ⟨.inr (.inr (.inl rfl)), connecting_ne_connected⟩
    · exact ⟨.inl rfl, closed_ne_connected⟩
    · exact ⟨.inr (.inr (.inr (.inr rfl))), listening_ne_connected⟩
  · exact ⟨.inl rfl, closed_ne_connected⟩

namespace Inv

variable {s : Sys}

/-- A thread moved to a place that is no store and needs no handle the socket lacks. -/
theorem setPc (hi : Inv s) {t : Nat} {pc : Pc} (hst : ∀ c v, pc ≠ .store c v)
    (hneed : s.sk.handle = none → pc.needsHandle = false) : Inv (s.setPc t pc) := by
  refine ⟨hi.valid, fun u c v hu => ?_, fun hnone => ?_⟩
  · by_cases hut : u = t
    · subst hut
      simp only [Sys.setPc, Function.update_self] at hu
      exact absurd hu (hst c v)
    · simp only [Sys.setPc, Function.update_of_ne hut] at hu
      exact hi.stores u c v hu
  · obtain ⟨h₁, h₂, h₃⟩ := hi.handle hnone
    refine ⟨h₁, h₂, fun u => ?_⟩
    by_cases hut : u = t
    · subst hut
      simp only [Sys.setPc, Function.update_self]
      exact hneed hnone
    · simp only [Sys.setPc, Function.update_of_ne hut]
      exact h₃ u

theorem start (hi : Inv s) (t : Nat) (c : Closure) : Inv (s.start t c) := by
  unfold Sys.start
  rw [updateState_eq]
  by_cases hexp : s.sk.state = c.expect
  · simp only [if_pos hexp, if_true]
    refine ⟨.inr (.inl rfl), fun u c' v hu => ?_, fun hnone => ?_⟩
    · by_cases hut : u = t
      · subst hut
        simp only [Function.update_self] at hu
        cases hu
      · simp only [Function.update_of_ne hut] at hu
        exact hi.stores u c' v hu
    · obtain ⟨-, hconn, h₃⟩ := hi.handle hnone
      refine ⟨busy_ne_connecting, busy_ne_connected, fun u => ?_⟩
      by_cases hut : u = t
      · subst hut
        simp only [Function.update_self]
        -- only `shutdown` unwraps the handle in its closure, and it starts from `CONNECTED`
        cases c with
        | shutdownStream => exact absurd hexp hconn
        | _ => rfl
      · simp only [Function.update_of_ne hut]
        exact h₃ u
  · simp only [if_neg hexp]
    exact hi.setPc (fun _ _ h => by cases c <;> cases h) (fun _ => by cases c <;> rfl)

theorem run (hi : Inv s) {t : Nat} {c : Closure} {ok : Bool} {h : Nat}
    {ep : IpEndpoint} {r : Bool} {sk : TcpSocket} {smol : TcpState}
    (hr : c.run s.sk s.smol ok h ep = some (r, sk, smol)) :
    Inv ⟨sk, smol, Function.update s.pcs t (.store c (if r then c.new else c.expect))⟩ := by
  obtain ⟨hstate, hkeep, hconn, hfail⟩ := Closure.run_spec hr
  refine ⟨hstate ▸ hi.valid, fun u c' v hu => ?_, fun hnone => ?_⟩
  · by_cases hut : u = t
    · subst hut
      simp only [Function.update_self, Pc.store.injEq] at hu
      obtain ⟨rfl, rfl⟩ := hu
      cases r
      · exact .inr (hfail rfl)
      · exact .inl rfl
    · simp only [Function.update_of_ne hut] at hu
      exact hi.stores u c' v hu
  · -- the closure never drops a handle, so the socket had none before
    have hold : s.sk.handle = none := by
      cases hs : s.sk.handle with
      | none => rfl
      | some _ =>
        have hsome := hkeep (by rw [hs]; rfl)
        rw [hnone] at hsome
        cases hsome
    obtain ⟨h₁, h₂, h₃⟩ := hi.handle hold
    refine ⟨hstate ▸ h₁, hstate ▸ h₂, fun u => ?_⟩
    by_cases hut : u = t
    · subst hut
      simp only [Function.update_self]
      cases r with
      | false =>
        simp only [Bool.false_eq_true, if_false, hfail rfl]
        cases c <;> rfl
      | true =>
        simp only [if_true]
        cases c with
        | connect _ =>
          have hsome := hconn rfl rfl
          rw [hnone] at hsome
          cases hsome
        | _ => rfl
    · simp only [Function.update_of_ne hut]
      exact h₃ u

theorem store (hi : Inv s) {t : Nat} {c : Closure} {v : UInt8} (hpc : s.pcs t = .store c v)
    (wait : Bool) :
    Inv { s with sk := s.sk.setState v, pcs := Function.update s.pcs t (c.after v wait) } := by
  have hv := hi.stores t c v hpc
  obtain ⟨hvalid, hconn⟩ := valid_of_store hv
  refine ⟨hvalid, fun u c' v' hu => ?_, fun hnone => ?_⟩
  · by_cases hut : u = t
    · subst hut
      simp only [Function.update_self] at hu
      cases c <;> simp only [Closure.after] at hu <;> (try split_ifs at hu) <;> cases hu
    · simp only [Function.update_of_ne hut] at hu
      exact hi.stores u c' v' hu
  · obtain ⟨-, -, h₃⟩ := hi.handle hnone
    -- without a handle, the pending store is no `CONNECTING` of `connect`
    have hnc : v ≠ STATE_CONNECTING := by
      intro hvc
      have hneed := h₃ t
      rw [hpc] at hneed
      rcases hv with rfl | rfl
      · obtain ⟨r, rfl⟩ := Closure.eq_connect_of_new hvc
        simp [Pc.needsHandle, hvc] at hneed
      · exact closed_ne_connecting hvc
    refine ⟨hnc, hconn, fun u => ?_⟩
    by_cases hut : u = t
    · subst hut
      simp only [Function.update_self]
      cases c with
      | connect _ =>
        simp only [Closure.after]
        split_ifs with hw
        · exact absurd hw.1 hnc
        · rfl
      | _ => rfl
    · simp only [Function.update_of_ne hut]
      exact h₃ u

theorem pollConnect (hi : Inv s) {t : Nat} {w b : Pc} {s' : Sys}
    (hw : ∀ c v, w ≠ .store c v) (hb : ∀ c v, b ≠ .store c v)
    (h : s.pollConnect t w b = some s') : Inv s' := by
  unfold Sys.pollConnect at h
  obtain ⟨⟨sk, wr⟩, hp, rfl⟩ := Option.map_eq_some_iff.mp h
  obtain ⟨hsome, hkeep, hstate⟩ := pollConnect_spec hp
  refine ⟨?_, fun u c v hu => ?_, fun hnone => ?_⟩
  · rcases hstate with ⟨hst, -⟩ | hst | hst <;> dsimp only <;> rw [hst]
    · exact hi.valid
    · exact .inr (.inr (.inr (.inl rfl)))
    · exact .inl rfl
  · by_cases hut : u = t
    · subst hut
      simp only [Function.update_self] at hu
      cases wr
      · exact absurd hu (hb c v)
      · exact absurd hu (hw c v)
    · simp only [Function.update_of_ne hut] at hu
      exact hi.stores u c v hu
  · -- `poll_connect` keeps the handle it unwrapped
    dsimp only at hnone
    rw [hkeep] at hnone
    rw [hnone] at hsome
    cases hsome

/-- The load of `poll`, `recv` or `send` moves a thread to a place that is no store and
    unwraps the handle only after reading `CONNECTING` or `CONNECTED`. -/
theorem load (hi : Inv s) (t : Nat) {pc : Pc} (hst : ∀ c v, pc ≠ .store c v)
    (hpc : s.sk.state ≠ STATE_CONNECTING → s.sk.state ≠ STATE_CONNECTED → pc = .idle) :
    Inv (s.setPc t pc) :=
  hi.setPc hst fun hnone => by
    obtain ⟨h₁, h₂, -⟩ := hi.handle hnone
    rw [hpc h₁ h₂]
    rfl

/-- Every step keeps the invariant. -/
theorem of_step (hi : Inv s) {l : Label} {s' : Sys} (h : Step s l s') : Inv s' := by
  cases h with
  | env smol => exact ⟨hi.valid, hi.stores, hi.handle⟩
  | @act _ t a hstep =>
    unfold Sys.step at hstep
    split at hstep
    -- the five calls that begin with the `compare_exchange` of `update_state`
    any_goals (cases hstep; exact hi.start _ _)
    · cases hstep
      refine hi.load t (fun _ _ h => by split_ifs at h) fun h₁ h₂ => ?_
      rw [if_neg h₁, if_neg h₂]
    · cases hstep
      refine hi.load t (fun _ _ h => by split_ifs at h) fun _ h₂ => ?_
      rw [if_neg h₂]
    · obtain ⟨⟨r, sk, smol⟩, hr, rfl⟩ := Option.map_eq_some_iff.mp hstep
      exact hi.run hr
    · rename_i wait hpc
      cases hstep
      exact hi.store hpc wait
    · exact hi.pollConnect (fun _ _ h => by cases h) (fun _ _ h => by split_ifs at h)
        hstep
    · exact hi.pollConnect (fun _ _ h => by cases h) (fun _ _ h => by cases h) hstep
    · cases hstep
      exact hi.setPc (fun _ _ h => by cases h) fun _ => rfl
    · split_ifs at hstep
      cases hstep
      exact hi.setPc (fun _ _ h => by cases h) fun _ => rfl
    · cases hstep

end Inv

/-- The invariant holds in every reachable state. -/
theorem inv_of_reachable {s : Sys} (h : tcpSystem.Reachable s) : Inv s := by
  refine LTS.Reachable.invariant ?_ (fun s _ _ (hi : Inv s) hs => hi.of_step hs) h
  rintro _ rfl
  exact inv_init

/-- Every `handle.unwrap()` the socket's code reaches finds a handle. -/
theorem handle_of_reachable {s : Sys} (h : tcpSystem.Reachable s) {t : Nat}
    (hpc : (s.pcs t).needsHandle = true) : s.sk.handle.isSome = true := by
  cases hh : s.sk.handle with
  | some _ => rfl
  | none =>
    have hneed := ((inv_of_reachable h).handle hh).2.2 t
    rw [hpc] at hneed
    cases hneed

/-! ## §6 Runs without a stale `poll_connect` -/

/-- The thread holds `BUSY`: it is between the `compare_exchange` of `update_state` and its
    store. -/
def Pc.holds : Pc → Bool
  | .busy _ => true
  | .store _ _ => true
  | _ => false

/-- Thread `t`'s next step is a `poll_connect` over a state that is no longer
    `CONNECTING`. -/
def Stale (s : Sys) (t : Nat) : Prop :=
  (s.pcs t = .connectLoop ∨ s.pcs t = .pollConnect) ∧ s.sk.state ≠ STATE_CONNECTING

/-- The runs of `tcpSystem` without a stale `poll_connect`. -/
def freshSystem : LTS Sys Label :=
  ⟨(· = Sys.init), fun s l s' => Step s l s' ∧ ∀ t a, l = .act t a → ¬Stale s t⟩

/-- The edges of the diagram at the head of `tcp.rs`. -/
def Edge (a b : UInt8) : Prop :=
  (a = STATE_CLOSED ∧ b = STATE_BUSY) ∨ (a = STATE_BUSY ∧ b = STATE_CONNECTING) ∨
    (a = STATE_CONNECTING ∧ b = STATE_CONNECTED) ∨ (a = STATE_CONNECTING ∧ b = STATE_CLOSED) ∨
    (a = STATE_BUSY ∧ b = STATE_LISTENING) ∨ (a = STATE_CONNECTED ∧ b = STATE_BUSY) ∨
    (a = STATE_LISTENING ∧ b = STATE_BUSY) ∨ (a = STATE_BUSY ∧ b = STATE_CLOSED)

instance (a b : UInt8) : Decidable (Edge a b) := inferInstanceAs (Decidable (_ ∨ _))

/-- Thread `t`'s step from `s` to `s'` changes `state` along an edge of the diagram, and
    leaves the socket alone while another thread holds `BUSY`. -/
def Respects (s : Sys) (t : Nat) (s' : Sys) : Prop :=
  (s'.sk.state = s.sk.state ∨ Edge s.sk.state s'.sk.state) ∧
    ∀ u, (s.pcs u).holds = true → u ≠ t → s'.sk = s.sk

/-- `state` is `BUSY` exactly when a thread holds it, and at most one does. -/
structure Excl (s : Sys) : Prop where
  unique : ∀ t u, (s.pcs t).holds = true → (s.pcs u).holds = true → t = u
  busy : s.sk.state = STATE_BUSY ↔ ∃ t, (s.pcs t).holds = true

theorem excl_init : Excl Sys.init :=
  ⟨fun _ _ h => (nomatch h), ⟨fun h => absurd h closed_ne_busy, fun ⟨_, h⟩ => (nomatch h)⟩⟩

theorem Closure.expect_edge (c : Closure) : Edge c.expect STATE_BUSY := by
  cases c with
  | connect _ => exact .inl ⟨rfl, rfl⟩
  | bind _ => exact .inl ⟨rfl, rfl⟩
  | listen => exact .inl ⟨rfl, rfl⟩
  | shutdownStream => exact .inr (.inr (.inr (.inr (.inr (.inl ⟨rfl, rfl⟩)))))
  | shutdownListener => exact .inr (.inr (.inr (.inr (.inr (.inr (.inl ⟨rfl, rfl⟩))))))

/-- What `update_state` stores is reached from `BUSY` by an edge. -/
theorem edge_of_store {c : Closure} {v : UInt8} (hv : v = c.new ∨ v = STATE_CLOSED) :
    Edge STATE_BUSY v := by
  rcases hv with rfl | rfl
  · rcases c.new_cases with h | h | h <;> rw [h]
    · exact .inr (.inl ⟨rfl, rfl⟩)
    · exact .inr (.inr (.inr (.inr (.inr (.inr (.inr ⟨rfl, rfl⟩))))))
    · exact .inr (.inr (.inr (.inr (.inl ⟨rfl, rfl⟩))))
  · exact .inr (.inr (.inr (.inr (.inr (.inr (.inr ⟨rfl, rfl⟩))))))

namespace Excl

variable {s : Sys}

/-- The other threads keep whether they hold `BUSY`. -/
theorem holds_update {pcs : Nat → Pc} {t u : Nat} {pc : Pc} (hu : u ≠ t) :
    (Function.update pcs t pc u).holds = (pcs u).holds := by
  rw [Function.update_of_ne hu]

/-- A step that keeps `state` and which threads hold `BUSY` keeps the invariant. -/
theorem of_holds_eq (he : Excl s) {s' : Sys} (hst : s'.sk.state = s.sk.state)
    (hsame : ∀ u, (s'.pcs u).holds = (s.pcs u).holds) : Excl s' := by
  refine ⟨fun u w hu hw => he.unique u w ((hsame u) ▸ hu) ((hsame w) ▸ hw), ?_⟩
  simp only [hsame, hst]
  exact he.busy

/-- Thread `t` moved to a place that holds `BUSY` as its old one did. -/
theorem holds_setPc {pcs : Nat → Pc} {t : Nat} {pc : Pc} (hpc : pc.holds = (pcs t).holds)
    (u : Nat) : (Function.update pcs t pc u).holds = (pcs u).holds := by
  by_cases hut : u = t
  · subst hut
    rw [Function.update_self, hpc]
  · exact holds_update hut

/-- No thread but the holder of `BUSY` holds it. -/
theorem eq_of_holds (he : Excl s) {t u : Nat} (ht : (s.pcs t).holds = true)
    (hu : (s.pcs u).holds = true) (hut : u ≠ t) : False :=
  hut (he.unique u t hu ht)

/-- A thread that holds nothing moves to a place that holds nothing. -/
theorem setPc (he : Excl s) {t : Nat} {pc : Pc} (hnt : (s.pcs t).holds = false)
    (hpc : pc.holds = false) : Excl (s.setPc t pc) ∧ Respects s t (s.setPc t pc) :=
  ⟨he.of_holds_eq rfl (holds_setPc (hpc.trans hnt.symm)), .inl rfl, fun _ _ _ => rfl⟩

theorem start (he : Excl s) {t : Nat} (hnt : (s.pcs t).holds = false) (c : Closure) :
    Excl (s.start t c) ∧ Respects s t (s.start t c) := by
  unfold Sys.start
  rw [updateState_eq]
  by_cases hexp : s.sk.state = c.expect
  · simp only [if_pos hexp, if_true]
    -- `BUSY` was free: the state was `expect`
    have hfree : ∀ u, (s.pcs u).holds = false := by
      intro u
      cases hu : (s.pcs u).holds
      · rfl
      · have hb := he.busy.mpr ⟨u, hu⟩
        rw [hexp] at hb
        exact absurd (hb ▸ c.expect_edge) (by cases c <;> decide)
    refine ⟨⟨fun u w hu hw => ?_, ?_⟩, .inr (hexp ▸ c.expect_edge), fun u hu _ => ?_⟩
    · by_cases hut : u = t
      · by_cases hwt : w = t
        · rw [hut, hwt]
        · rw [holds_update hwt, hfree w] at hw
          cases hw
      · rw [holds_update hut, hfree u] at hu
        cases hu
    · exact ⟨fun _ => ⟨t, by simp [Pc.holds]⟩, fun _ => rfl⟩
    · rw [hfree u] at hu
      cases hu
  · simp only [if_neg hexp]
    exact he.setPc hnt (by cases c <;> rfl)

theorem run (he : Excl s) {t : Nat} {c : Closure} (hpc : s.pcs t = .busy c) {ok : Bool}
    {h : Nat} {ep : IpEndpoint} {r : Bool} {sk : TcpSocket} {smol : TcpState}
    (hr : c.run s.sk s.smol ok h ep = some (r, sk, smol)) :
    let s' : Sys := ⟨sk, smol, Function.update s.pcs t (.store c (if r then c.new else c.expect))⟩
    Excl s' ∧ Respects s t s' := by
  intro s'
  have hst : s'.sk.state = s.sk.state := (Closure.run_spec hr).1
  have ht : (s.pcs t).holds = true := by rw [hpc]; rfl
  exact ⟨he.of_holds_eq hst (holds_setPc (by rw [ht]; rfl)), .inl hst,
    fun u hu hut => (he.eq_of_holds ht hu hut).elim⟩

theorem store (he : Excl s) (hi : Inv s) {t : Nat} {c : Closure} {v : UInt8}
    (hpc : s.pcs t = .store c v) (wait : Bool) :
    let s' : Sys := { s with sk := s.sk.setState v, pcs := Function.update s.pcs t (c.after v wait) }
    Excl s' ∧ Respects s t s' := by
  intro s'
  have ht : (s.pcs t).holds = true := by rw [hpc]; rfl
  have hbusy : s.sk.state = STATE_BUSY := he.busy.mpr ⟨t, ht⟩
  have hedge := edge_of_store (hi.stores t c v hpc)
  have hafter : (c.after v wait).holds = false := by
    cases c <;> simp only [Closure.after] <;> (try split_ifs) <;> rfl
  -- once `t` has stored, no thread holds `BUSY`
  have hnone : ∀ u, (s'.pcs u).holds = false := by
    intro u
    by_cases hut : u = t
    · subst hut
      simp only [s', Function.update_self, hafter]
    · rw [holds_update hut]
      cases hu : (s.pcs u).holds
      · rfl
      · exact (he.eq_of_holds ht hu hut).elim
  have hv : v ≠ STATE_BUSY := by
    intro hvb
    rw [hvb] at hedge
    revert hedge
    decide
  refine ⟨⟨fun u _ hu => absurd hu (by rw [hnone u]; decide), ?_⟩, .inr (hbusy ▸ hedge),
    fun u hu hut => (he.eq_of_holds ht hu hut).elim⟩
  exact ⟨fun hb => absurd hb hv, fun ⟨u, hu⟩ => absurd hu (by rw [hnone u]; decide)⟩

theorem pollConnect (he : Excl s) {t : Nat} {w b : Pc} {s' : Sys}
    (hst : s.sk.state = STATE_CONNECTING) (hnt : (s.pcs t).holds = false) (hw : w.holds = false)
    (hb : b.holds = false) (h : s.pollConnect t w b = some s') : Excl s' ∧ Respects s t s' := by
  unfold Sys.pollConnect at h
  obtain ⟨⟨sk, wr⟩, hp, rfl⟩ := Option.map_eq_some_iff.mp h
  obtain ⟨-, -, hstate⟩ := pollConnect_spec hp
  -- `BUSY` is free: the state is `CONNECTING`
  have hfree : ∀ u, (s.pcs u).holds = false := by
    intro u
    cases hu : (s.pcs u).holds
    · rfl
    · exact absurd (hst ▸ he.busy.mpr ⟨u, hu⟩) connecting_ne_busy
  have hsame : ∀ u, ((Function.update s.pcs t (if wr then w else b)) u).holds =
      (s.pcs u).holds := holds_setPc (by rw [hnt]; split_ifs <;> assumption)
  refine ⟨⟨fun u _ hu => absurd ((hsame u).trans (hfree u) ▸ hu) (by decide), ?_⟩, ?_,
    fun u hu _ => absurd hu (by rw [hfree u]; decide)⟩
  · refine ⟨fun hbusy => ?_, fun ⟨u, hu⟩ => absurd ((hsame u).trans (hfree u) ▸ hu) (by decide)⟩
    dsimp only at hbusy
    rcases hstate with ⟨hs, -⟩ | hs | hs <;> rw [hs] at hbusy
    · exact absurd (hst ▸ hbusy) connecting_ne_busy
    · exact absurd hbusy connected_ne_busy
    · exact absurd hbusy closed_ne_busy
  · dsimp only
    rcases hstate with ⟨hs, -⟩ | hs | hs
    · exact .inl hs
    · exact .inr (.inr (.inr (.inl ⟨hst, hs⟩)))
    · exact .inr (.inr (.inr (.inr (.inl ⟨hst, hs⟩))))

/-- A step that is no stale `poll_connect` keeps the exclusion and respects it. -/
theorem step (he : Excl s) (hi : Inv s) {t : Nat} {a : Act} {s' : Sys}
    (hstep : s.step t a = some s') (hfresh : ¬Stale s t) : Excl s' ∧ Respects s t s' := by
  unfold Sys.step at hstep
  split at hstep
  -- the five calls that begin with the `compare_exchange` of `update_state`
  any_goals (rename_i hpc; cases hstep; exact he.start (by rw [hpc]; rfl) _)
  · rename_i hpc
    cases hstep
    exact he.setPc (by rw [hpc]; rfl) (by split_ifs <;> rfl)
  · rename_i hpc
    cases hstep
    exact he.setPc (by rw [hpc]; rfl) (by split_ifs <;> rfl)
  · rename_i hpc
    obtain ⟨⟨r, sk, smol⟩, hr, rfl⟩ := Option.map_eq_some_iff.mp hstep
    exact he.run hpc hr
  · rename_i wait hpc
    cases hstep
    exact he.store hi hpc wait
  · rename_i hpc
    have hst : s.sk.state = STATE_CONNECTING := Classical.not_not.mp fun hne => hfresh ⟨.inl hpc, hne⟩
    exact he.pollConnect hst (by rw [hpc]; rfl) rfl (by split_ifs <;> rfl) hstep
  · rename_i hpc
    have hst : s.sk.state = STATE_CONNECTING := Classical.not_not.mp fun hne => hfresh ⟨.inr hpc, hne⟩
    exact he.pollConnect hst (by rw [hpc]; rfl) rfl rfl hstep
  · rename_i hpc
    cases hstep
    exact he.setPc (by rw [hpc]; rfl) rfl
  · rename_i hpc
    split_ifs at hstep
    cases hstep
    exact he.setPc (by rw [hpc]; rfl) rfl
  · cases hstep

end Excl

/-- Both invariants hold in every state reachable without a stale `poll_connect`. -/
theorem inv_excl_of_fresh {s : Sys} (h : freshSystem.Reachable s) : Inv s ∧ Excl s := by
  refine LTS.Reachable.invariant ?_ (fun s _ _ (hs : Inv s ∧ Excl s) hstep => ?_) h
  · rintro _ rfl
    exact ⟨inv_init, excl_init⟩
  · obtain ⟨hstep, hfresh⟩ := hstep
    refine ⟨hs.1.of_step hstep, ?_⟩
    cases hstep with
    | env smol => exact hs.2.of_holds_eq rfl fun _ => rfl
    | act hst => exact (hs.2.step hs.1 hst (hfresh _ _ rfl)).1

/-- In runs without a stale `poll_connect`, every step of a thread changes `state` along
    an edge of the diagram, and no thread changes the socket while another holds `BUSY`. -/
theorem fresh_step_spec {s s' : Sys} (h : freshSystem.Reachable s) {t : Nat} {a : Act}
    (hstep : s.step t a = some s') (hfresh : ¬Stale s t) : Respects s t s' :=
  let ⟨hi, he⟩ := inv_excl_of_fresh h
  (he.step hi hstep hfresh).2

/-! ## §7 A stale `poll_connect` -/

/-- Thread `0` connects to `2:80`; thread `1` polls and reads `CONNECTING`; `smoltcp`
    completes the handshake, and thread `0`'s own `poll_connect` stores `CONNECTED` and
    returns. Thread `1`'s `poll_connect` then stores over a state it no longer reads: after
    the peer closes, `CLOSED` over `CONNECTED`, which is no edge of the diagram; after
    thread `2` begins `shutdown`, `CONNECTED` over the `BUSY` that thread `2` holds. -/
theorem tcp_stale_poll_connect :
    (∃ s s', tcpSystem.Run Sys.init
        [.act 0 (.connect ⟨2, 80⟩), .act 0 (.run true 0 ⟨1, 49152⟩), .act 0 (.store true),
          .act 1 .poll, .env .established, .act 0 (.next true), .act 0 (.next true),
          .env .closeWait] s ∧
      s.step 1 (.next true) = some s' ∧ s.sk.state = STATE_CONNECTED ∧
      s'.sk.state = STATE_CLOSED ∧ ¬Edge STATE_CONNECTED STATE_CLOSED) ∧
    (∃ s s', tcpSystem.Run Sys.init
        [.act 0 (.connect ⟨2, 80⟩), .act 0 (.run true 0 ⟨1, 49152⟩), .act 0 (.store true),
          .act 1 .poll, .env .established, .act 0 (.next true), .act 0 (.next true),
          .act 2 .shutdown] s ∧
      s.step 1 (.next true) = some s' ∧ s.pcs 2 = .busy .shutdownStream ∧
      s.sk.state = STATE_BUSY ∧ s'.sk.state = STATE_CONNECTED) := by
  constructor
  · exact ⟨_, _, LTS.Run.cons (Step.act rfl) (LTS.Run.cons (Step.act rfl)
      (LTS.Run.cons (Step.act rfl) (LTS.Run.cons (Step.act rfl) (LTS.Run.cons (Step.env _)
        (LTS.Run.cons (Step.act rfl) (LTS.Run.cons (Step.act rfl) (LTS.Run.cons (Step.env _)
          (LTS.Run.nil _)))))))), rfl, rfl, rfl, by decide⟩
  · exact ⟨_, _, LTS.Run.cons (Step.act rfl) (LTS.Run.cons (Step.act rfl)
      (LTS.Run.cons (Step.act rfl) (LTS.Run.cons (Step.act rfl) (LTS.Run.cons (Step.env _)
        (LTS.Run.cons (Step.act rfl) (LTS.Run.cons (Step.act rfl) (LTS.Run.cons (Step.act rfl)
          (LTS.Run.nil _)))))))), rfl, rfl, rfl, rfl⟩

end TcpSocket

end ArceOS.Net
