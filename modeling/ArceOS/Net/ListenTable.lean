import ArceOS.Lib.Containers
import ArceOS.Lib.Transition

/-!
# The Listen Table

Model of `ListenTable` (`axnet/src/smoltcp_impl/listen_table.rs`) over the socket set
`SOCKET_SET` it shares with the rest of `axnet`. Each port has at most one entry, with
the endpoint it listens on and its SYN queue: `incoming_tcp_packet`, called from
`snoop_tcp_packet` for the first SYN of a connection, adds a fresh listening socket to
the set and queues its handle; `accept` takes the first queued handle whose socket is
connected, by `swap_remove_front`; dropping an entry (`unlisten`) removes every handle
still queued from the set.

`smoltcp` is a third party, modelled by what it documents. The set is a slot vector
(`Lib.Slots`): `add` fills the first empty slot, and its index is the handle;
`remove` and `get` on a handle without a socket panic. A TCP socket is read through its
state and its endpoints, which exist exactly when it is connected (`TcpSock.Documented`);
`poll_interfaces` may move any socket to any such state. Every call runs under the locks
it takes, as one step; a panic is `none`.

## Main results

- `inv_of_reachable`: in every reachable state each SYN queue holds at most
  `LISTEN_QUEUE_SIZE` handles, no handle is queued twice, and every queued handle has a
  TCP socket in the set;
- `accept_spec`: `accept` returns `WouldBlock` and changes nothing, or takes the first
  connected handle out of the queue, keeping the others up to order, and returns it with
  its endpoints; or it panics when that socket has lost them;
- `unlisten_spec`: `unlisten` removes every handle still queued from the set;
- `accept_panics_after_reset`: a peer that resets a connection before it is accepted
  makes the next `accept` panic.
-/

namespace ArceOS.Net

open ArceOS.Lib

/-! ## §1 Sockets -/

/-- The `AxError` variants the modelled parts of `axnet` return. -/
inductive AxError where
  | addrInUse
  | alreadyExists
  | badState
  | connectionRefused
  | invalidInput
  | wouldBlock
  deriving DecidableEq, Repr

/-- `smoltcp::socket::tcp::State`. -/
inductive TcpState where
  | closed
  | listen
  | synSent
  | synReceived
  | established
  | finWait1
  | finWait2
  | closeWait
  | closing
  | lastAck
  | timeWait
  deriving DecidableEq, Repr

/-- `IpEndpoint`: an address, as a number, and a port. -/
structure IpEndpoint where
  addr : Nat
  port : Nat
  deriving DecidableEq, Repr

/-- `IpListenEndpoint`: the address to accept on, any when `none`, and a port. -/
structure IpListenEndpoint where
  addr : Option Nat
  port : Nat
  deriving DecidableEq, Repr

/-- A `smoltcp` TCP socket as the listen table reads it: its state, and the local and
    remote endpoints that `local_endpoint()` and `remote_endpoint()` return. -/
structure TcpSock where
  state : TcpState
  tuple : Option (IpEndpoint × IpEndpoint)
  deriving DecidableEq, Repr

/-- What `smoltcp` documents of a socket: it has endpoints exactly when it is
    connected, neither closed nor listening. -/
def TcpSock.Documented (s : TcpSock) : Prop :=
  s.tuple.isSome = true ↔ (s.state ≠ .closed ∧ s.state ≠ .listen)

instance (s : TcpSock) : Decidable s.Documented :=
  inferInstanceAs (Decidable (_ ↔ _))

/-- A socket of `SOCKET_SET`: a TCP socket, or one of another kind. -/
inductive Sock where
  | tcp (s : TcpSock)
  | other
  deriving DecidableEq

/-- `SocketSetWrapper::new_tcp_socket()` after a successful `listen`. -/
def listeningSock : TcpSock := ⟨.listen, none⟩

/-- The TCP socket of a handle, as `SOCKET_SET.with_socket::<tcp::Socket, _, _>` reads
    it; `none` (a panic there) for a handle without a socket or with another kind. -/
def getTcp (sockets : List (Option Sock)) (h : Nat) : Option TcpSock :=
  match Slots.get sockets h with
  | some (.tcp s) => some s
  | _ => none

theorem getTcp_of_get_eq {l l' : List (Option Sock)} {h : Nat}
    (he : Slots.get l' h = Slots.get l h) : getTcp l' h = getTcp l h := by
  unfold getTcp
  rw [he]

/-- A handle with a TCP socket holds a socket. -/
theorem isSome_get_of_getTcp {l : List (Option Sock)} {h : Nat}
    (hs : (getTcp l h).isSome = true) : (Slots.get l h).isSome = true := by
  unfold getTcp at hs
  split at hs
  · rename_i _ hg
    rw [hg]
    rfl
  · cases hs

/-- `is_connected`: the state is neither `Listen` nor `SynReceived`. -/
def isConnected (s : TcpSock) : Bool :=
  !(s.state == .listen || s.state == .synReceived)

/-! ## §2 The table -/

/-- `LISTEN_QUEUE_SIZE`. -/
def LISTEN_QUEUE_SIZE : Nat := 512

/-- `ListenTableEntry`: the endpoint listened on, and the SYN queue, front first. -/
structure ListenTableEntry where
  listenEndpoint : IpListenEndpoint
  synQueue : List Nat

/-- `ListenTableEntry::can_accept`. -/
def ListenTableEntry.canAccept (e : ListenTableEntry) (dst : Nat) : Bool :=
  match e.listenEndpoint.addr with
  | some addr => addr == dst
  | none => true

/-- `SOCKET_SET` and `LISTEN_TABLE`: the socket slots, and the entry of each port. -/
structure NetState where
  sockets : List (Option Sock)
  tcp : Nat → Option ListenTableEntry

/-- Both empty, as `init` leaves them. -/
def NetState.init : NetState := ⟨[], fun _ => none⟩

/-- `ListenTable::listen`; `none` is the panic of `assert_ne!(port, 0)`. -/
def listen (s : NetState) (ep : IpListenEndpoint) : Option (Except AxError Unit × NetState) :=
  if ep.port = 0 then none
  else
    match s.tcp ep.port with
    | none => some (.ok (), { s with tcp := Function.update s.tcp ep.port (some ⟨ep, []⟩) })
    | some _ => some (.error .addrInUse, s)

/-- `Drop for ListenTableEntry`: `SOCKET_SET.remove` of each handle of the queue, in
    order. -/
def removeAll (sockets : List (Option Sock)) : List Nat → Option (List (Option Sock))
  | [] => some sockets
  | h :: hs =>
    match Slots.remove sockets h with
    | none => none
    | some sockets => removeAll sockets hs

/-- Removing a queue leaves every other slot as it was. -/
theorem get_removeAll_of_not_mem {sockets sockets' : List (Option Sock)} {hs : List Nat}
    (h : removeAll sockets hs = some sockets') {j : Nat} (hj : j ∉ hs) :
    Slots.get sockets' j = Slots.get sockets j := by
  induction hs generalizing sockets with
  | nil =>
    simp only [removeAll, Option.some.injEq] at h
    rw [h]
  | cons a hs ih =>
    simp only [List.mem_cons, not_or] at hj
    simp only [removeAll] at h
    split at h
    · cases h
    · rename_i mid hmid
      rw [ih h hj.2, Slots.get_remove_of_ne hmid (Ne.symm hj.1)]

/-- Removing a queue empties the slot of each of its handles. -/
theorem get_removeAll_of_mem {sockets sockets' : List (Option Sock)} {hs : List Nat}
    (h : removeAll sockets hs = some sockets') {j : Nat} (hj : j ∈ hs) :
    Slots.get sockets' j = none := by
  induction hs generalizing sockets with
  | nil => cases hj
  | cons a hs ih =>
    simp only [removeAll] at h
    split at h
    · cases h
    · rename_i mid hmid
      by_cases hjs : j ∈ hs
      · exact ih h hjs
      · -- `j` is the head, emptied first and untouched after
        have hja : j = a := by simpa [hjs] using hj
        subst hja
        rw [get_removeAll_of_not_mem h hjs]
        exact Slots.get_remove_self hmid

/-- A queue of distinct handles that all hold a socket is removed without a panic. -/
theorem removeAll_isSome {sockets : List (Option Sock)} {hs : List Nat} (hnd : hs.Nodup)
    (hlive : ∀ h ∈ hs, (Slots.get sockets h).isSome = true) :
    (removeAll sockets hs).isSome = true := by
  induction hs generalizing sockets with
  | nil => rfl
  | cons a hs ih =>
    obtain ⟨ha, hnd⟩ := List.nodup_cons.mp hnd
    have hrem : Slots.remove sockets a = some (sockets.set a none) :=
      Slots.remove_eq_some_iff.mpr ⟨hlive a List.mem_cons_self, rfl⟩
    simp only [removeAll, hrem]
    refine ih hnd fun h hh => ?_
    have hah : a ≠ h := fun hah => ha (hah ▸ hh)
    rw [Slots.get_remove_of_ne hrem hah]
    exact hlive h (List.mem_cons_of_mem a hh)

/-- `ListenTable::unlisten`: the old entry, if any, is dropped. -/
def unlisten (s : NetState) (port : Nat) : Option NetState :=
  match s.tcp port with
  | none => some s
  | some e =>
    match removeAll s.sockets e.synQueue with
    | none => none
    | some sockets => some ⟨sockets, Function.update s.tcp port none⟩

/-- `ListenTable::can_accept`: whether a queued socket is connected, reading the queue
    up to the first that is. -/
def anyConnected (sockets : List (Option Sock)) : List Nat → Option Bool
  | [] => some false
  | h :: hs =>
    match getTcp sockets h with
    | none => none
    | some sock => if isConnected sock then some true else anyConnected sockets hs

/-- The `find_map` of `accept` from index `idx` of the queue: the first connected handle's
    index with `get_addr_tuple`, which unwraps both endpoints. -/
def findConnected (sockets : List (Option Sock)) :
    List Nat → Nat → Option (Option (Nat × (IpEndpoint × IpEndpoint)))
  | [], _ => some none
  | h :: hs, idx =>
    match getTcp sockets h with
    | none => none
    | some sock =>
      if isConnected sock then
        match sock.tuple with
        | none => none
        | some t => some (some (idx, t))
      else findConnected sockets hs (idx + 1)

/-- `ListenTable::accept`. -/
def accept (s : NetState) (port : Nat) :
    Option (Except AxError (Nat × (IpEndpoint × IpEndpoint)) × NetState) :=
  match s.tcp port with
  | none => some (.error .invalidInput, s)
  | some e =>
    match findConnected s.sockets e.synQueue 0 with
    | none => none
    | some none => some (.error .wouldBlock, s)
    | some (some (idx, t)) =>
      match swapRemoveFront e.synQueue idx with
      | none => none
      | some (h, q) =>
        some (.ok (h, t), { s with tcp := Function.update s.tcp port (some { e with synQueue := q }) })

/-- `ListenTable::incoming_tcp_packet` for a first SYN to `dst`: a fresh socket listening
    on the entry's endpoint is added to the set and queued, unless the entry does not
    accept on `dst`'s address or its queue is full. `socket.listen` fails only on port
    `0`. -/
def incomingTcpPacket (s : NetState) (dst : IpEndpoint) : NetState :=
  match s.tcp dst.port with
  | none => s
  | some e =>
    if !e.canAccept dst.addr then s
    else if e.synQueue.length ≥ LISTEN_QUEUE_SIZE then s
    else if e.listenEndpoint.port = 0 then s
    else
      let r := Slots.add s.sockets (.tcp listeningSock)
      ⟨r.2, Function.update s.tcp dst.port (some { e with synQueue := e.synQueue ++ [r.1] })⟩

/-! ## §3 The system -/

/-- A call on the listen table, or a change made to the socket set elsewhere. -/
inductive NetOp where
  | listen (ep : IpListenEndpoint)
  | unlisten (port : Nat)
  | syn (dst : IpEndpoint)
  | accept (port : Nat)
  /-- `poll_interfaces` moves the TCP socket `h` to the state `sock` -/
  | update (h : Nat) (sock : TcpSock)
  /-- another owner adds a socket -/
  | add (sock : Sock)
  /-- the owner of `h` removes it -/
  | remove (h : Nat)

/-- `h` is in some SYN queue, and so owned by the listen table. -/
def Queued (s : NetState) (h : Nat) : Prop := ∃ p e, s.tcp p = some e ∧ h ∈ e.synQueue

/-- One step: a call that returns (a panic has no step), or a change elsewhere. `smoltcp`
    moves only existing TCP sockets, to documented states; other owners remove only the
    handles they own, which are not queued. -/
inductive NetStep : NetState → NetOp → NetState → Prop
  | listen {s s' : NetState} {ep : IpListenEndpoint} {r : Except AxError Unit} :
      listen s ep = some (r, s') → NetStep s (.listen ep) s'
  | unlisten {s s' : NetState} {port : Nat} :
      unlisten s port = some s' → NetStep s (.unlisten port) s'
  | syn {s : NetState} {dst : IpEndpoint} : NetStep s (.syn dst) (incomingTcpPacket s dst)
  | accept {s s' : NetState} {port : Nat} {r : Except AxError (Nat × (IpEndpoint × IpEndpoint))} :
      accept s port = some (r, s') → NetStep s (.accept port) s'
  | update {s : NetState} {h : Nat} {sock : TcpSock} :
      (getTcp s.sockets h).isSome = true → sock.Documented →
      NetStep s (.update h sock) { s with sockets := s.sockets.set h (some (.tcp sock)) }
  | add {s : NetState} {sock : Sock} :
      NetStep s (.add sock) { s with sockets := (Slots.add s.sockets sock).2 }
  | remove {s : NetState} {h : Nat} {sockets : List (Option Sock)} :
      ¬Queued s h → Slots.remove s.sockets h = some sockets →
      NetStep s (.remove h) { s with sockets := sockets }

/-- The network stack from `init`. -/
def netSystem : LTS NetState NetOp := ⟨(· = NetState.init), NetStep⟩

/-! ## §4 The bookkeeping invariant -/

/-- The SYN queues: each holds at most `LISTEN_QUEUE_SIZE` handles, none twice, no handle
    is in two queues, and every queued handle has a TCP socket in the set. -/
structure Inv (s : NetState) : Prop where
  bounded : ∀ p e, s.tcp p = some e → e.synQueue.length ≤ LISTEN_QUEUE_SIZE
  nodup : ∀ p e, s.tcp p = some e → e.synQueue.Nodup
  disjoint : ∀ p q ep eq h, s.tcp p = some ep → s.tcp q = some eq →
    h ∈ ep.synQueue → h ∈ eq.synQueue → p = q
  live : ∀ p e h, s.tcp p = some e → h ∈ e.synQueue → (getTcp s.sockets h).isSome = true

theorem inv_init : Inv NetState.init where
  bounded _ _ h := nomatch h
  nodup _ _ h := nomatch h
  disjoint _ _ _ _ _ h := nomatch h
  live _ _ _ h := nomatch h

namespace Inv

variable {s : NetState}

/-- A port's entry replaced: each handle of the new queue was queued at that port before,
    or is queued nowhere and has a TCP socket. -/
theorem setEntry (hi : Inv s) {p : Nat} (e' : ListenTableEntry)
    (hnew : ∀ h ∈ e'.synQueue, (∃ e, s.tcp p = some e ∧ h ∈ e.synQueue) ∨
      (¬Queued s h ∧ (getTcp s.sockets h).isSome = true))
    (hnd : e'.synQueue.Nodup) (hlen : e'.synQueue.length ≤ LISTEN_QUEUE_SIZE) :
    Inv { s with tcp := Function.update s.tcp p (some e') } := by
  -- an entry of the new table is `e'` at `p`, or an old one elsewhere
  have hcases : ∀ q eq, Function.update s.tcp p (some e') q = some eq →
      (q = p ∧ eq = e') ∨ (q ≠ p ∧ s.tcp q = some eq) := by
    intro q eq hq
    by_cases hqp : q = p
    · subst hqp
      rw [Function.update_self] at hq
      exact .inl ⟨rfl, (Option.some.inj hq).symm⟩
    · rw [Function.update_of_ne hqp] at hq
      exact .inr ⟨hqp, hq⟩
  -- a handle of the new table was queued at the same port, or is the fresh one at `p`
  have hmem : ∀ q eq h, Function.update s.tcp p (some e') q = some eq → h ∈ eq.synQueue →
      (∃ e, s.tcp q = some e ∧ h ∈ e.synQueue) ∨
        (q = p ∧ ¬Queued s h ∧ (getTcp s.sockets h).isSome = true) := by
    intro q eq h hq hh
    rcases hcases q eq hq with ⟨rfl, rfl⟩ | ⟨-, hq⟩
    · rcases hnew h hh with hold | ⟨hnq, hl⟩
      · exact .inl hold
      · exact .inr ⟨rfl, hnq, hl⟩
    · exact .inl ⟨eq, hq, hh⟩
  refine ⟨?_, ?_, ?_, ?_⟩
  · intro q eq hq
    rcases hcases q eq hq with ⟨-, rfl⟩ | ⟨-, hq⟩
    · exact hlen
    · exact hi.bounded q eq hq
  · intro q eq hq
    rcases hcases q eq hq with ⟨-, rfl⟩ | ⟨-, hq⟩
    · exact hnd
    · exact hi.nodup q eq hq
  · intro q₁ q₂ e₁ e₂ h h₁ h₂ hh₁ hh₂
    rcases hmem q₁ e₁ h h₁ hh₁ with ⟨f₁, hf₁, hm₁⟩ | ⟨hq₁, hnq₁, -⟩
    · rcases hmem q₂ e₂ h h₂ hh₂ with ⟨f₂, hf₂, hm₂⟩ | ⟨-, hnq₂, -⟩
      · exact hi.disjoint q₁ q₂ f₁ f₂ h hf₁ hf₂ hm₁ hm₂
      · exact absurd ⟨q₁, f₁, hf₁, hm₁⟩ hnq₂
    · rcases hmem q₂ e₂ h h₂ hh₂ with ⟨f₂, hf₂, hm₂⟩ | ⟨hq₂, -, -⟩
      · exact absurd ⟨q₂, f₂, hf₂, hm₂⟩ hnq₁
      · rw [hq₁, hq₂]
  · intro q eq h hq hh
    rcases hmem q eq h hq hh with ⟨f, hf, hm⟩ | ⟨-, -, hl⟩
    · exact hi.live q f h hf hm
    · exact hl

/-- A port's entry dropped, with a socket set that keeps a TCP socket at every handle
    queued at another port. -/
theorem clearEntry (hi : Inv s) (p : Nat) {sockets : List (Option Sock)}
    (hkeep : ∀ q e h, q ≠ p → s.tcp q = some e → h ∈ e.synQueue →
      (getTcp sockets h).isSome = true) :
    Inv ⟨sockets, Function.update s.tcp p none⟩ := by
  -- an entry of the new table is an old one at another port
  have hold : ∀ q e, Function.update s.tcp p none q = some e → q ≠ p ∧ s.tcp q = some e := by
    intro q e hq
    by_cases hqp : q = p
    · subst hqp
      rw [Function.update_self] at hq
      cases hq
    · rw [Function.update_of_ne hqp] at hq
      exact ⟨hqp, hq⟩
  refine ⟨fun q e hq => hi.bounded q e (hold q e hq).2,
    fun q e hq => hi.nodup q e (hold q e hq).2,
    fun q₁ q₂ e₁ e₂ h h₁ h₂ => hi.disjoint q₁ q₂ e₁ e₂ h (hold q₁ e₁ h₁).2 (hold q₂ e₂ h₂).2, ?_⟩
  intro q e h hq hh
  obtain ⟨hqp, hq⟩ := hold q e hq
  exact hkeep q e h hqp hq hh

/-- A change of the socket set that keeps a TCP socket at every queued handle. -/
theorem setSockets (hi : Inv s) {sockets : List (Option Sock)}
    (hkeep : ∀ h, Queued s h → (getTcp sockets h).isSome = true) :
    Inv { s with sockets := sockets } :=
  ⟨hi.bounded, hi.nodup, hi.disjoint, fun p e h hp hh => hkeep h ⟨p, e, hp, hh⟩⟩

theorem live_of_queued (hi : Inv s) {h : Nat} (hq : Queued s h) : (getTcp s.sockets h).isSome = true := by
  obtain ⟨p, e, hp, hh⟩ := hq
  exact hi.live p e h hp hh

theorem of_listen (hi : Inv s) {ep : IpListenEndpoint} {r : Except AxError Unit}
    {s' : NetState} (h : listen s ep = some (r, s')) : Inv s' := by
  unfold listen at h
  split_ifs at h
  split at h
  · obtain ⟨-, rfl⟩ := Prod.mk.inj (Option.some.inj h)
    exact hi.setEntry ⟨ep, []⟩ (fun _ hm => nomatch hm) List.nodup_nil (Nat.zero_le _)
  · obtain ⟨-, rfl⟩ := Prod.mk.inj (Option.some.inj h)
    exact hi

theorem of_unlisten (hi : Inv s) {port : Nat} {s' : NetState} (h : unlisten s port = some s') :
    Inv s' := by
  unfold unlisten at h
  split at h
  · cases h
    exact hi
  · rename_i e he
    split at h
    · cases h
    · rename_i sockets hrm
      cases h
      -- a handle queued at another port is not in the dropped queue, so keeps its socket
      refine hi.clearEntry port fun q f j hq hf hj => ?_
      have hnot : j ∉ e.synQueue := fun hm => hq (hi.disjoint q port f e j hf he hj hm)
      rw [getTcp_of_get_eq (get_removeAll_of_not_mem hrm hnot)]
      exact hi.live q f j hf hj

theorem of_incomingTcpPacket (hi : Inv s) (dst : IpEndpoint) : Inv (incomingTcpPacket s dst) := by
  unfold incomingTcpPacket
  split
  · exact hi
  · rename_i e he
    split_ifs with _ hfull
    · exact hi
    · exact hi
    · exact hi
    · dsimp only
      -- the fresh handle held no socket, so no queued handle is it
      have hfresh : ¬Queued s (Slots.add s.sockets (.tcp listeningSock)).1 := fun hq =>
        absurd (isSome_get_of_getTcp (hi.live_of_queued hq)) (by rw [Slots.get_add_fst]; simp)
      have hkeep : ∀ j, Queued s j →
          (getTcp (Slots.add s.sockets (.tcp listeningSock)).2 j).isSome = true := by
        intro j hj
        have hne : j ≠ (Slots.add s.sockets (.tcp listeningSock)).1 := fun he => hfresh (he ▸ hj)
        rw [getTcp_of_get_eq (Slots.get_add_of_ne _ _ hne)]
        exact hi.live_of_queued hj
      refine (hi.setSockets hkeep).setEntry
        { e with synQueue := e.synQueue ++ [(Slots.add s.sockets (.tcp listeningSock)).1] }
        ?_ ?_ ?_
      · intro j hj
        rcases List.mem_append.mp hj with hj | hj
        · exact .inl ⟨e, he, hj⟩
        · rw [List.mem_singleton.mp hj]
          refine .inr ⟨hfresh, ?_⟩
          simp [getTcp]
      · rw [List.nodup_append_comm]
        exact List.nodup_cons.mpr ⟨fun hm => hfresh ⟨dst.port, e, he, hm⟩, hi.nodup _ e he⟩
      · rw [List.length_append, List.length_singleton]
        omega

theorem of_accept (hi : Inv s) {port : Nat} {r : Except AxError (Nat × (IpEndpoint × IpEndpoint))}
    {s' : NetState} (h : accept s port = some (r, s')) : Inv s' := by
  unfold accept at h
  split at h
  · obtain ⟨-, rfl⟩ := Prod.mk.inj (Option.some.inj h)
    exact hi
  · rename_i e he
    split at h
    · cases h
    · obtain ⟨-, rfl⟩ := Prod.mk.inj (Option.some.inj h)
      exact hi
    · rename_i idx t _
      split at h
      · cases h
      · rename_i q hsw
        obtain ⟨-, rfl⟩ := Prod.mk.inj (Option.some.inj h)
        -- the queue left is the old one without one handle, up to order
        have hperm := (perm_of_swapRemoveFront hsw).2
        have hsub := List.eraseIdx_sublist e.synQueue idx
        refine hi.setEntry { e with synQueue := q } (fun j hj => .inl ⟨e, he, ?_⟩) ?_ ?_
        · exact hsub.subset (hperm.subset hj)
        · exact hperm.nodup_iff.mpr (hsub.nodup (hi.nodup port e he))
        · rw [hperm.length_eq]
          exact Nat.le_trans (List.length_eraseIdx_le _ _) (hi.bounded port e he)

theorem of_update (hi : Inv s) {h : Nat} (sock : TcpSock) :
    Inv { s with sockets := s.sockets.set h (some (.tcp sock)) } := by
  refine hi.setSockets fun j hj => ?_
  by_cases hjh : h = j
  · subst hjh
    have hlt := Slots.lt_length_of_isSome (isSome_get_of_getTcp (hi.live_of_queued hj))
    simp [getTcp, Slots.get_set_self hlt]
  · rw [getTcp_of_get_eq (Slots.get_set_of_ne _ hjh _)]
    exact hi.live_of_queued hj

theorem of_add (hi : Inv s) (sock : Sock) :
    Inv { s with sockets := (Slots.add s.sockets sock).2 } := by
  refine hi.setSockets fun j hj => ?_
  -- a queued handle holds a socket, so it is not the empty slot `add` fills
  have hne : j ≠ (Slots.add s.sockets sock).1 := by
    intro he
    have hl := isSome_get_of_getTcp (hi.live_of_queued hj)
    rw [he, Slots.get_add_fst] at hl
    cases hl
  rw [getTcp_of_get_eq (Slots.get_add_of_ne _ _ hne)]
  exact hi.live_of_queued hj

theorem of_remove (hi : Inv s) {h : Nat} {sockets : List (Option Sock)} (hnq : ¬Queued s h)
    (hrm : Slots.remove s.sockets h = some sockets) : Inv { s with sockets := sockets } := by
  refine hi.setSockets fun j hj => ?_
  have hne : h ≠ j := fun he => hnq (he ▸ hj)
  rw [getTcp_of_get_eq (Slots.get_remove_of_ne hrm hne)]
  exact hi.live_of_queued hj

/-- Every step keeps the invariant. -/
theorem of_step (hi : Inv s) {op : NetOp} {s' : NetState} (h : NetStep s op s') : Inv s' := by
  cases h with
  | listen h => exact hi.of_listen h
  | unlisten h => exact hi.of_unlisten h
  | syn => exact hi.of_incomingTcpPacket _
  | accept h => exact hi.of_accept h
  | update _ _ => exact hi.of_update _
  | add => exact hi.of_add _
  | remove hnq hrm => exact hi.of_remove hnq hrm

end Inv

/-- The bookkeeping holds in every reachable state. -/
theorem inv_of_reachable {s : NetState} (h : netSystem.Reachable s) : Inv s := by
  refine LTS.Reachable.invariant ?_ (fun s _ _ (hi : Inv s) hs => hi.of_step hs) h
  rintro _ rfl
  exact inv_init


/-! ## §5 `accept` and `unlisten` -/

/-- A handle whose TCP socket is not connected yet. -/
def Waiting (sockets : List (Option Sock)) (h : Nat) : Prop :=
  ∃ sock, getTcp sockets h = some sock ∧ isConnected sock = false

/-- The first connected handle of a queue is `h`, at index `i`, with socket `sock`. -/
def FirstConnected (sockets : List (Option Sock)) (q : List Nat) (i h : Nat) (sock : TcpSock) :
    Prop :=
  q[i]? = some h ∧ getTcp sockets h = some sock ∧ isConnected sock = true ∧
    ∀ h' ∈ q.take i, Waiting sockets h'

/-- The search of `accept` over a queue of TCP sockets finds none connected, or stops at
    the first connected one and reads its endpoints, panicking when it has none. -/
theorem findConnected_cases (sockets : List (Option Sock)) (q : List Nat) (idx : Nat)
    (hlive : ∀ h ∈ q, (getTcp sockets h).isSome = true) :
    (findConnected sockets q idx = some none ∧ ∀ h ∈ q, Waiting sockets h) ∨
    ∃ i h sock, FirstConnected sockets q i h sock ∧
      findConnected sockets q idx = sock.tuple.map fun t => some (idx + i, t) := by
  induction q generalizing idx with
  | nil => exact .inl ⟨rfl, fun _ hm => nomatch hm⟩
  | cons a q ih =>
    obtain ⟨sock, hsock⟩ := Option.isSome_iff_exists.mp (hlive a List.mem_cons_self)
    by_cases hc : isConnected sock = true
    · -- the head is the first connected handle
      refine .inr ⟨0, a, sock, ⟨rfl, hsock, hc, fun _ hm => nomatch hm⟩, ?_⟩
      simp only [findConnected, hsock, hc, if_true, Nat.add_zero]
      cases sock.tuple <;> rfl
    · have hc : isConnected sock = false := by simpa using hc
      have hw : Waiting sockets a := ⟨sock, hsock, hc⟩
      have hstep : findConnected sockets (a :: q) idx = findConnected sockets q (idx + 1) := by
        simp only [findConnected, hsock, hc, Bool.false_eq_true, if_false]
      rcases ih (idx + 1) (fun h hh => hlive h (List.mem_cons_of_mem a hh)) with
        ⟨hf, hall⟩ | ⟨i, h, sock', ⟨hq, hg, hc', hpre⟩, hf⟩
      · exact .inl ⟨hstep.trans hf, List.forall_mem_cons.mpr ⟨hw, hall⟩⟩
      · refine .inr ⟨i + 1, h, sock', ⟨hq, hg, hc', ?_⟩, ?_⟩
        · rw [List.take_succ_cons]
          exact List.forall_mem_cons.mpr ⟨hw, hpre⟩
        · rw [hstep, hf, show idx + 1 + i = idx + (i + 1) by omega]

/-- `accept` on a listening port: `WouldBlock` when no queued socket is connected, with
    nothing changed; or the first connected handle with its endpoints, the queue left
    holding exactly the other handles; or a panic, when that socket has no endpoints. -/
theorem accept_spec {s : NetState} (hi : Inv s) {port : Nat} {e : ListenTableEntry}
    (he : s.tcp port = some e) :
    (accept s port = some (.error .wouldBlock, s) ∧ ∀ h ∈ e.synQueue, Waiting s.sockets h) ∨
    (∃ i h sock t q, FirstConnected s.sockets e.synQueue i h sock ∧ sock.tuple = some t ∧
      List.Perm q (e.synQueue.erase h) ∧
      accept s port = some (.ok (h, t),
        { s with tcp := Function.update s.tcp port (some { e with synQueue := q }) })) ∨
    (∃ i h sock, FirstConnected s.sockets e.synQueue i h sock ∧ sock.tuple = none ∧
      accept s port = none) := by
  have hlive : ∀ h ∈ e.synQueue, (getTcp s.sockets h).isSome = true :=
    fun h hh => hi.live port e h he hh
  rcases findConnected_cases s.sockets e.synQueue 0 hlive with
    ⟨hf, hall⟩ | ⟨i, h, sock, hfirst, hf⟩
  · left
    refine ⟨?_, hall⟩
    simp only [accept, he, hf]
  · right
    have hq := hfirst.1
    cases ht : sock.tuple with
    | none =>
      right
      refine ⟨i, h, sock, hfirst, ht, ?_⟩
      simp only [accept, he, hf, ht, Option.map_none]
    | some t =>
      left
      -- `swap_remove_front` takes out the handle found, at index `i`
      obtain ⟨hlt, hget⟩ := List.getElem?_eq_some_iff.mp hq
      obtain ⟨q, hsw⟩ := swapRemoveFront_of_lt hlt
      have hperm := (perm_of_swapRemoveFront hsw).2
      rw [← (hi.nodup port e he).erase_getElem i hlt, hget] at hperm
      refine ⟨i, h, sock, t, q, hfirst, ht, hperm, ?_⟩
      simp only [accept, he, hf, ht, Option.map_some, Nat.zero_add, hsw, hget]

/-- `unlisten` on a listening port drops its entry and empties the slot of every handle
    still queued there, without a panic; every other slot stays as it was. -/
theorem unlisten_spec {s : NetState} (hi : Inv s) {port : Nat} {e : ListenTableEntry}
    (he : s.tcp port = some e) :
    ∃ sockets, unlisten s port = some ⟨sockets, Function.update s.tcp port none⟩ ∧
      (∀ h ∈ e.synQueue, Slots.get sockets h = none) ∧
      (∀ h, h ∉ e.synQueue → Slots.get sockets h = Slots.get s.sockets h) := by
  obtain ⟨sockets, hrm⟩ := Option.isSome_iff_exists.mp
    (removeAll_isSome (hi.nodup port e he) fun h hh => isSome_get_of_getTcp (hi.live port e h he hh))
  refine ⟨sockets, ?_, fun h hh => get_removeAll_of_mem hrm hh,
    fun h hh => get_removeAll_of_not_mem hrm hh⟩
  simp only [unlisten, he, hrm]

/-- A connection to port `80` that the peer resets once established, before it is
    accepted: `smoltcp` moves the socket to `Closed` and forgets its endpoints. `is_connected`
    counts `Closed` as connected, and `get_addr_tuple` then unwraps an endpoint that is not
    there, so the next `accept` panics. -/
theorem accept_panics_after_reset :
    ∃ s, netSystem.Run NetState.init
      [.listen ⟨none, 80⟩, .syn ⟨1, 80⟩,
        .update 0 ⟨.synReceived, some (⟨1, 80⟩, ⟨2, 5000⟩)⟩,
        .update 0 ⟨.established, some (⟨1, 80⟩, ⟨2, 5000⟩)⟩,
        .update 0 ⟨.closed, none⟩] s ∧
      accept s 80 = none := by
  refine ⟨_, LTS.Run.cons (NetStep.listen rfl) (LTS.Run.cons NetStep.syn
    (LTS.Run.cons (NetStep.update rfl (by decide)) (LTS.Run.cons (NetStep.update rfl (by decide))
      (LTS.Run.cons (NetStep.update rfl (by decide)) (LTS.Run.nil _))))), rfl⟩

end ArceOS.Net
