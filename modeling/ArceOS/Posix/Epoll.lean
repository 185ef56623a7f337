import ArceOS.Lib.OrdMap
import ArceOS.Posix.FdOps

/-!
# `epoll`

`EpollInstance` from `arceos_posix_api/src/imp/io_mpx/epoll.rs`: an interest set, a
`BTreeMap` from descriptors to the `epoll_event` registered for them, changed by
`control` and read by `poll_all`, which `sys_epoll_wait` calls on the caller's array of
`maxevents` entries.

`poll_all` visits the registered descriptors in key order and writes one entry per
ready kind: `EPOLLERR` when `poll` fails, else `EPOLLIN` and `EPOLLOUT` separately. It
indexes the slice with `events[events_num]`, which panics once `events_num` reaches
the slice's length; a panic is `Stop.panic`, and an error returned by `?` is
`Stop.error`.

## Main results

- `pollAll_of_open`: over open descriptors, `poll_all` writes the list `ready` of the
  ready events at the front of the slice and returns its length when it fits, and
  panics when it does not;
- `mem_ready`: each ready event carries the data of a registered descriptor, one kind
  that it asked for, and a readiness that the descriptor's `poll` reports;
- `epoll_wait_two_ready_one_slot_panics`: a pipe's two ends registered for `EPOLLIN`
  and `EPOLLOUT`, both ready, make `sys_epoll_wait(.., maxevents = 1, ..)` panic.
-/

namespace ArceOS.Posix.Epoll

open ArceOS.Lib ArceOS.Posix

/-! ## §1 Events and the interest set -/

/-- `epoll_event`: the event mask and the caller's data. -/
structure EpollEvent where
  events : UInt32
  data : UInt64
  deriving DecidableEq, Repr

/-- `EPOLLIN`. -/
def EPOLLIN : UInt32 := 0x001
/-- `EPOLLOUT`. -/
def EPOLLOUT : UInt32 := 0x004
/-- `EPOLLERR`. -/
def EPOLLERR : UInt32 := 0x008

/-- `EPOLL_CTL_ADD`. -/
def EPOLL_CTL_ADD : Nat := 1
/-- `EPOLL_CTL_DEL`. -/
def EPOLL_CTL_DEL : Nat := 2
/-- `EPOLL_CTL_MOD`. -/
def EPOLL_CTL_MOD : Nat := 3

/-- `EpollInstance`: the registered descriptors and their events, in key order. -/
structure EpollInstance where
  events : OrdMap Nat EpollEvent

/-- How a call can stop early: with the error of a `?`, or with a panic. -/
inductive Stop where
  | error (e : LinuxError)
  | panic
  deriving DecidableEq, Repr

namespace EpollInstance

/-- `EpollInstance::new`. -/
def new : EpollInstance := ⟨OrdMap.empty⟩

/-- `EpollInstance::control(op, fd, event)`: the descriptor must be open; `ADD` refuses
    a registered one, `MOD` and `DEL` an unregistered one. -/
def control (inst : EpollInstance) (t : FdTable) (op fd : Nat) (event : EpollEvent) :
    LinuxResult (Nat × EpollInstance) :=
  match t.getFileLike fd with
  | .error e => .error e
  | .ok _ =>
    if op = EPOLL_CTL_ADD then
      if inst.events.contains fd then .error .EEXIST
      else .ok (0, ⟨inst.events.insert fd event⟩)
    else if op = EPOLL_CTL_MOD then
      if inst.events.contains fd then .ok (0, ⟨inst.events.insert fd event⟩)
      else .error .ENOENT
    else if op = EPOLL_CTL_DEL then
      if inst.events.contains fd then .ok (0, ⟨inst.events.erase fd⟩)
      else .error .ENOENT
    else .error .EINVAL

end EpollInstance

/-! ## §2 `poll_all` -/

/-- `events[events_num] = {events, data}; events_num += 1`. -/
def push (slice : List EpollEvent) (num : Nat) (e : EpollEvent) :
    Except Stop (List EpollEvent × Nat) :=
  if num < slice.length then .ok (slice.set num e, num + 1) else .error .panic

/-- The body of `poll_all`'s loop for the registered `(fd, ev)`. -/
def pollEntry (t : FdTable) (fd : Nat) (ev : EpollEvent) (slice : List EpollEvent)
    (num : Nat) : Except Stop (List EpollEvent × Nat) :=
  match t.getFileLike fd with
  | .error e => .error (.error e)
  | .ok (.error _) =>
    if ev.events &&& EPOLLERR != 0 then push slice num ⟨EPOLLERR, ev.data⟩
    else .ok (slice, num)
  | .ok (.ok state) => do
    let (slice, num) ←
      if state.readable && (ev.events &&& EPOLLIN != 0) then push slice num ⟨EPOLLIN, ev.data⟩
      else pure (slice, num)
    if state.writable && (ev.events &&& EPOLLOUT != 0) then push slice num ⟨EPOLLOUT, ev.data⟩
    else pure (slice, num)

/-- `poll_all`'s loop over the entries `es` still to visit. -/
def pollAllLoop (t : FdTable) :
    List (Nat × EpollEvent) → List EpollEvent → Nat → Except Stop (List EpollEvent × Nat)
  | [], slice, num => .ok (slice, num)
  | (fd, ev) :: es, slice, num => do
    let (slice, num) ← pollEntry t fd ev slice num
    pollAllLoop t es slice num

/-- `EpollInstance::poll_all(events)`: the slice after the writes and `events_num`. -/
def EpollInstance.pollAll (inst : EpollInstance) (t : FdTable) (slice : List EpollEvent) :
    Except Stop (List EpollEvent × Nat) :=
  pollAllLoop t inst.events.entries slice 0

/-- One pass of `sys_epoll_wait`'s loop on the `maxevents` entries of `mem`, with `inst`
    what `from_fd(epfd)` returns and `expired` whether the deadline has passed: the
    count returned (`none` when the call yields and polls again) and the slice. -/
def sysEpollWait (inst : LinuxResult EpollInstance) (t : FdTable) (maxevents : Int)
    (mem : Nat → EpollEvent) (expired : Bool) :
    Except Stop (Option Nat × List EpollEvent) := do
  if maxevents ≤ 0 then throw (.error .EINVAL)
  -- `from_raw_parts_mut(events, maxevents as usize)`
  let slice := (List.range maxevents.toNat).map mem
  let inst ← match inst with
    | .error e => throw (.error e)
    | .ok inst => pure inst
  let (slice, num) ← inst.pollAll t slice
  if num > 0 then return (some num, slice)
  if expired then return (some 0, slice)
  return (none, slice)

/-! ## §3 The events reported -/

/-- The entries `poll_all` writes for a registered `ev` whose descriptor's `poll`
    returned `r`. -/
def reported (ev : EpollEvent) : LinuxResult PollState → List EpollEvent
  | .error _ => if ev.events &&& EPOLLERR != 0 then [⟨EPOLLERR, ev.data⟩] else []
  | .ok state =>
    (if state.readable && (ev.events &&& EPOLLIN != 0) then [⟨EPOLLIN, ev.data⟩] else []) ++
      (if state.writable && (ev.events &&& EPOLLOUT != 0) then [⟨EPOLLOUT, ev.data⟩] else [])

/-- The entries reported for the registered `es`, in order. -/
def readyList (t : FdTable) (es : List (Nat × EpollEvent)) : List EpollEvent :=
  es.flatMap fun e => ((t.poll e.1).map (reported e.2)).getD []

/-- The ready events of an instance. -/
def EpollInstance.ready (inst : EpollInstance) (t : FdTable) : List EpollEvent :=
  readyList t inst.events.entries

/-- Each reported entry carries the registered data, one kind asked for, and a
    readiness that `poll` reports. -/
theorem mem_reported {ev e : EpollEvent} {r : LinuxResult PollState} (h : e ∈ reported ev r) :
    e.data = ev.data ∧
      ((e.events = EPOLLIN ∧ ev.events &&& EPOLLIN ≠ 0 ∧ ∃ st, r = .ok st ∧ st.readable) ∨
        (e.events = EPOLLOUT ∧ ev.events &&& EPOLLOUT ≠ 0 ∧ ∃ st, r = .ok st ∧ st.writable) ∨
        (e.events = EPOLLERR ∧ ev.events &&& EPOLLERR ≠ 0 ∧ ∃ err, r = .error err)) := by
  cases r with
  | error err =>
    simp only [reported] at h
    split_ifs at h with hm
    · obtain rfl := List.mem_singleton.mp h
      exact ⟨rfl, .inr (.inr ⟨rfl, by simpa using hm, err, rfl⟩)⟩
    · simp at h
  | ok st =>
    simp only [reported, List.mem_append] at h
    rcases h with h | h
    · split_ifs at h with hm
      · obtain rfl := List.mem_singleton.mp h
        simp only [Bool.and_eq_true, bne_iff_ne] at hm
        exact ⟨rfl, .inl ⟨rfl, hm.2, st, rfl, hm.1⟩⟩
      · simp at h
    · split_ifs at h with hm
      · obtain rfl := List.mem_singleton.mp h
        simp only [Bool.and_eq_true, bne_iff_ne] at hm
        exact ⟨rfl, .inr (.inl ⟨rfl, hm.2, st, rfl, hm.1⟩)⟩
      · simp at h

theorem mem_ready {inst : EpollInstance} {t : FdTable} {e : EpollEvent}
    (h : e ∈ inst.ready t) :
    ∃ fd ev r, inst.events.get? fd = some ev ∧ t.poll fd = some r ∧ e ∈ reported ev r := by
  simp only [EpollInstance.ready, readyList, List.mem_flatMap] at h
  obtain ⟨⟨fd, ev⟩, hmem, he⟩ := h
  cases hr : t.poll fd with
  | none => simp [hr] at he
  | some r =>
    refine ⟨fd, ev, r, ?_, hr, by simpa [hr] using he⟩
    exact OrdMap.get?_of_mem inst.events hmem

/-! ## §4 What `poll_all` does -/

variable {t : FdTable} {slice acc : List EpollEvent}

/-- Writing the next entry in place keeps the slice as "the entries written, then the
    rest of the caller's array". -/
theorem push_of_lt {e : EpollEvent} (h : acc.length < slice.length) :
    push (acc ++ slice.drop acc.length) acc.length e =
      .ok ((acc ++ [e]) ++ slice.drop (acc ++ [e]).length, (acc ++ [e]).length) := by
  have hd : slice.drop acc.length = slice[acc.length] :: slice.drop (acc.length + 1) :=
    List.drop_eq_getElem_cons h
  have hset : (acc ++ slice.drop acc.length).set acc.length e =
      acc ++ e :: slice.drop (acc.length + 1) := by
    rw [hd, List.set_append_right _ _ (Nat.le_refl _), Nat.sub_self, List.set_cons_zero]
  simp only [push, List.length_append, List.length_drop, if_pos (show acc.length <
    acc.length + (slice.length - acc.length) by omega), hset, List.length_singleton,
    List.append_assoc, List.singleton_append]

theorem push_of_ge {e : EpollEvent} (h : slice.length ≤ acc.length) :
    push (acc ++ slice.drop acc.length) acc.length e = .error .panic := by
  simp only [push, List.length_append, List.length_drop]
  rw [if_neg (by omega)]

/-- Writing a list of entries one by one, in place. -/
def pushAll (slice : List EpollEvent) (num : Nat) : List EpollEvent →
    Except Stop (List EpollEvent × Nat)
  | [] => .ok (slice, num)
  | e :: es => do
    let (slice, num) ← push slice num e
    pushAll slice num es

/-- Pushing entries in place fills the slice from the front while they fit, and
    panics once they do not. -/
theorem pushAll_spec (acc es : List EpollEvent) (hacc : acc.length ≤ slice.length) :
    pushAll (acc ++ slice.drop acc.length) acc.length es =
      if acc.length + es.length ≤ slice.length then
        .ok ((acc ++ es) ++ slice.drop (acc ++ es).length, (acc ++ es).length)
      else .error .panic := by
  induction es generalizing acc with
  | nil => simp [pushAll, hacc]
  | cons e es ih =>
    by_cases h : acc.length < slice.length
    · have hfit : (acc ++ [e]).length ≤ slice.length := by
        simp only [List.length_append, List.length_singleton]
        omega
      have hrest := ih (acc ++ [e]) hfit
      have happ : (acc ++ [e]) ++ es = acc ++ e :: es := by simp
      have hlen : (acc ++ [e]).length + es.length = acc.length + (e :: es).length := by
        simp only [List.length_append, List.length_cons, List.length_nil]
        omega
      rw [pushAll, push_of_lt h]
      simp only [bind, Except.bind]
      rw [hrest, happ, hlen]
    · rw [pushAll, push_of_ge (Nat.le_of_not_lt h)]
      simp only [bind, Except.bind]
      rw [if_neg (by simp only [List.length_cons]; omega)]

theorem pushAll_append (slice : List EpollEvent) (num : Nat) (xs ys : List EpollEvent) :
    pushAll slice num (xs ++ ys) =
      (pushAll slice num xs >>= fun r => pushAll r.1 r.2 ys) := by
  induction xs generalizing slice num with
  | nil => rfl
  | cons x xs ih =>
    simp only [List.cons_append, pushAll, bind, Except.bind]
    cases push slice num x with
    | error e => rfl
    | ok r => exact ih r.1 r.2

theorem pushAll_singleton (slice : List EpollEvent) (num : Nat) (e : EpollEvent) :
    pushAll slice num [e] = push slice num e := by
  simp only [pushAll, bind, Except.bind]
  cases push slice num e <;> rfl

/-- The body of the loop for an open descriptor pushes the entries it reports. -/
theorem pollEntry_eq_pushAll {fd : Nat} {ev : EpollEvent} {r : LinuxResult PollState}
    {num : Nat} (hr : t.poll fd = some r) :
    pollEntry t fd ev slice num = pushAll slice num (reported ev r) := by
  cases r with
  | error err =>
    simp only [pollEntry, FdTable.getFileLike_of_some hr, reported]
    split_ifs
    · rw [pushAll_singleton]
    · rfl
  | ok st =>
    simp only [pollEntry, FdTable.getFileLike_of_some hr, reported, pushAll_append]
    -- `EPOLLIN` and `EPOLLOUT` are pushed one after the other, each when it is ready
    split_ifs
    · simp only [pushAll_singleton]
    · simp only [pushAll_singleton]
      cases push slice num ⟨EPOLLIN, ev.data⟩ <;> rfl
    · simp only [pushAll_singleton]
      rfl
    · rfl

/-- Over descriptors that are all open, the loop pushes the entries each one reports. -/
theorem pollAllLoop_eq_pushAll {es : List (Nat × EpollEvent)}
    (hopen : ∀ e ∈ es, (t.poll e.1).isSome) (num : Nat) :
    pollAllLoop t es slice num = pushAll slice num (readyList t es) := by
  induction es generalizing slice num with
  | nil => rfl
  | cons e es ih =>
    obtain ⟨fd, ev⟩ := e
    obtain ⟨r, hr⟩ := Option.isSome_iff_exists.mp (hopen (fd, ev) List.mem_cons_self)
    have ih' := fun s => @ih s (fun e he => hopen e (List.mem_cons_of_mem _ he))
    simp only [pollAllLoop, pollEntry_eq_pushAll hr, readyList, List.flatMap_cons, hr,
      Option.map_some, Option.getD_some, pushAll_append, bind, Except.bind]
    cases pushAll slice num (reported ev r) with
    | error e => rfl
    | ok p => exact ih' p.1 p.2

/-- Over open descriptors, `poll_all` writes the ready events at the front of the slice
    and returns their count when they fit, and panics when they do not. -/
theorem pollAll_of_open {inst : EpollInstance}
    (hopen : ∀ e ∈ inst.events.entries, (t.poll e.1).isSome) :
    inst.pollAll t slice =
      if (inst.ready t).length ≤ slice.length then
        .ok (inst.ready t ++ slice.drop (inst.ready t).length, (inst.ready t).length)
      else .error .panic := by
  have h := @pushAll_spec slice [] (inst.ready t) (Nat.zero_le _)
  simp only [List.length_nil, List.drop_zero, List.nil_append, Nat.zero_add] at h
  rw [EpollInstance.pollAll, pollAllLoop_eq_pushAll hopen]
  exact h

/-- A pipe's two ends as descriptors `3` and `4`: the read end holds data, the write end
    has room, so `Pipe::poll` reports the first readable and the second writable. -/
def pipePairTable : FdTable :=
  ⟨fun fd => if fd = 3 then some (.ok ⟨true, false⟩)
    else if fd = 4 then some (.ok ⟨false, true⟩) else none⟩

/-- Registering the read end of a pipe for `EPOLLIN` and its write end for `EPOLLOUT`,
    both ready, and waiting with `maxevents = 1`: `poll_all` writes the first event to
    `events[0]` and then indexes `events[1]` of a one-entry slice, and panics. -/
theorem epoll_wait_two_ready_one_slot_panics :
    ∃ inst, (EpollInstance.new.control pipePairTable EPOLL_CTL_ADD 3 ⟨EPOLLIN, 3⟩ >>= fun r =>
        r.2.control pipePairTable EPOLL_CTL_ADD 4 ⟨EPOLLOUT, 4⟩) = .ok (0, inst) ∧
      sysEpollWait (.ok inst) pipePairTable 1 (fun _ => ⟨0, 0⟩) false = .error .panic := by
  refine ⟨_, rfl, ?_⟩
  decide

end ArceOS.Posix.Epoll
