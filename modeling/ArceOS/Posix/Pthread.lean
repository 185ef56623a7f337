import ArceOS.Lib.Transition
import ArceOS.Libc.Malloc
import ArceOS.Posix.FdOps

/-!
# POSIX Threads

`Pthread` and the calls of `arceos_posix_api/src/imp/pthread/mod.rs`: `pthread_t` is the
address of a `Box<Pthread>`, which holds the task and an `Arc<Packet>` whose cell
receives the thread's result; `TID_TO_PTHREAD` maps each task id to its box.

Tasks run interleaved, with preemption: a call is cut where another task can run in the
middle of it. `Pthread::create` spawns the task before it inserts the box into
`TID_TO_PTHREAD`, so it is two steps (`createSpawn`, `createInsert`), and the new task
may run in between; `Pthread::join` rebuilds the box, then waits in
`thread.inner.join()` for the task to exit (`joinStart`, `joinFinish`). Every other call
is one step. Any task may make any call at any time, so the model has every run of every
program. The allocator may give the box any non-null address that holds no live box.

A value `*mut c_void` is a number, null is `0`; a packet is named by the task it was
made for. `Fault.undefined` is a step the language leaves undefined: here, reading a box
that is not live. The run starts after the main task's first call has filled
`TID_TO_PTHREAD` with its own entry (`lazy_static!`).

## Main results

- `inv_of_reachable`: every entry of `TID_TO_PTHREAD` names a live box made for its own
  task, and a task that ended left its value in its packet;
- `joinFinish_spec`: a join that returns gives the value the joined task ended with, and
  removes its entry and its box;
- `self_panics_before_insert`: between the two steps of `create`, `pthread_self` and
  `pthread_exit` in the new task panic;
- `joinStart_after_join`: joining a pointer again after a join on it returned is
  undefined.
-/

namespace ArceOS.Posix

open ArceOS.Lib

open ArceOS.Libc (Fault)

/-- `Pthread`: the task, and the packet its result goes to. -/
structure Pthread where
  inner : Nat
  retval : Nat
  deriving DecidableEq, Repr

namespace Pthread

/-! ## §1 Tasks and state -/

/-- Where a task stands. -/
inductive Phase where
  | running
  /-- inside `Pthread::create`, after `axtask::spawn` made the task `child` -/
  | creating (child : Nat)
  /-- inside `Pthread::join`, owning the box rebuilt from `ptr` -/
  | joining (ptr : Nat)
  /-- ended with `v`, passed to `sys_pthread_exit` or returned by its start routine; the
      code keeps `v` only in the packet -/
  | exited (v : Nat)
  deriving DecidableEq, Repr

/-- The tasks, `TID_TO_PTHREAD`, the live boxes by address, and the packets' cells. -/
structure State where
  tasks : Nat → Option Phase
  nextTid : Nat
  table : Nat → Option Nat
  boxes : Nat → Option Pthread
  results : Nat → Nat

/-- The main task `main`, whose box is at `ptr`, alone. -/
def State.init (main ptr : Nat) : State where
  tasks := Function.update (fun _ => none) main (some .running)
  nextTid := main + 1
  table := Function.update (fun _ => none) main (some ptr)
  boxes := Function.update (fun _ => none) ptr (some ⟨main, main⟩)
  results := fun _ => 0

/-! ## §2 The calls -/

/-- `Pthread::current_ptr` in task `t`: its entry, null when it has none. -/
def currentPtr (s : State) (t : Nat) : Nat := (s.table t).getD 0

/-- `Pthread::current`: the box behind `current_ptr`, `None` for null. -/
def current (s : State) (t : Nat) : Except Fault (Option Pthread) :=
  let ptr := currentPtr s t
  if ptr = 0 then .ok none
  else
    match s.boxes ptr with
    | none => .error .undefined
    | some th => .ok (some th)

/-- The panic of `.expect("fail to get current thread")`. -/
def noCurrentThread : Fault := .panic "fail to get current thread"

/-- `Pthread::create` by task `c` up to `axtask::spawn`: the packet and the task
    `nextTid`, which may run from now on. -/
def createSpawn (s : State) (c : Nat) : State :=
  { s with
    tasks := Function.update (Function.update s.tasks s.nextTid (some .running)) c
      (some (.creating s.nextTid))
    nextTid := s.nextTid + 1
    results := Function.update s.results s.nextTid 0 }

/-- The rest of `Pthread::create`: the box for `child`, at the address `ptr` the
    allocator gives, is inserted into `TID_TO_PTHREAD`, and `ptr` returned. -/
def createInsert (s : State) (c child ptr : Nat) : Nat × State :=
  (ptr, { s with
    tasks := Function.update s.tasks c (some .running)
    table := Function.update s.table child (some ptr)
    boxes := Function.update s.boxes ptr (some ⟨child, child⟩) })

/-- `Pthread::exit_current(v)` in task `t`, which `sys_pthread_exit` calls: `v` goes to the
    packet of the current box, and the task exits. -/
def exitCurrent (s : State) (t v : Nat) : Except Fault State := do
  match ← current s t with
  | none => throw noCurrentThread
  | some th =>
    pure { s with
      tasks := Function.update s.tasks t (some (.exited v))
      results := Function.update s.results th.retval v }

/-- The end of the closure `main` of `Pthread::create` in task `t`: the value `v` the start
    routine returned goes to the packet made with the task. -/
def mainReturn (s : State) (t v : Nat) : State :=
  { s with
    tasks := Function.update s.tasks t (some (.exited v))
    results := Function.update s.results t v }

/-- `Pthread::join(ptr)` by task `t` up to `thread.inner.join()`: `EDEADLK` for the caller's
    own pointer; otherwise `Box::from_raw(ptr)`, which is undefined unless a box is live
    there. -/
def joinStart (s : State) (t ptr : Nat) : Except Fault (Option LinuxError × State) :=
  if ptr = currentPtr s t then .ok (some .EDEADLK, s)
  else
    match s.boxes ptr with
    | none => .error .undefined
    | some _ => .ok (none, { s with tasks := Function.update s.tasks t (some (.joining ptr)) })

/-- The rest of `Pthread::join(ptr)`, once the box's task has exited: the result is read
    from the packet, the entry removed and the box freed; `none` while the task has not
    exited. Reading a box freed meanwhile is undefined. -/
def joinFinish (s : State) (t ptr : Nat) : Except Fault (Option (Nat × State)) :=
  match s.boxes ptr with
  | none => .error .undefined
  | some th =>
    match s.tasks th.inner with
    | some (.exited _) =>
      .ok (some (s.results th.retval, { s with
        tasks := Function.update s.tasks t (some .running)
        table := Function.update s.table th.inner none
        boxes := Function.update s.boxes ptr none }))
    | _ => .ok none

end Pthread

/-- `sys_pthread_self` in task `t`. -/
def sysPthreadSelf (s : Pthread.State) (t : Nat) : Except Fault Nat := do
  match ← Pthread.current s t with
  | none => throw Pthread.noCurrentThread
  | some _ => pure (Pthread.currentPtr s t)

namespace Pthread

/-! ## §3 The system -/

/-- A step of task `t`. -/
inductive Op where
  | create (t : Nat)
  | insert (t ptr : Nat)
  | self (t : Nat)
  | exit (t v : Nat)
  | ret (t v : Nat)
  | join (t ptr : Nat)
  | joined (t : Nat)

/-- One step: a call, or a stretch of one, that returns; a panic or undefined behaviour
    has no step. A running task may start any call; `insert` and `joined` go on with the
    call the task is in. -/
inductive Step : State → Op → State → Prop
  | create {s : State} {t : Nat} : s.tasks t = some .running → Step s (.create t) (createSpawn s t)
  | insert {s : State} {t child ptr : Nat} : s.tasks t = some (.creating child) → ptr ≠ 0 →
      s.boxes ptr = none → Step s (.insert t ptr) (createInsert s t child ptr).2
  | self {s : State} {t p : Nat} : s.tasks t = some .running → sysPthreadSelf s t = .ok p →
      Step s (.self t) s
  | exit {s s' : State} {t v : Nat} : s.tasks t = some .running → exitCurrent s t v = .ok s' →
      Step s (.exit t v) s'
  | ret {s : State} {t v : Nat} : s.tasks t = some .running → Step s (.ret t v) (mainReturn s t v)
  | join {s s' : State} {t ptr : Nat} {r : Option LinuxError} : s.tasks t = some .running →
      joinStart s t ptr = .ok (r, s') → Step s (.join t ptr) s'
  | joined {s s' : State} {t ptr v : Nat} : s.tasks t = some (.joining ptr) →
      joinFinish s t ptr = .ok (some (v, s')) → Step s (.joined t) s'

/-- The threads of a program, from its main task with a box at a non-null address. -/
def system : LTS State Op := ⟨fun s => ∃ main ptr, ptr ≠ 0 ∧ s = State.init main ptr, Step⟩

/-! ## §4 The bookkeeping invariant -/

section Update

variable {α : Type} {f : Nat → Option α} {a u : Nat}

/-- A value of a map with one key set is the one set, or an old one elsewhere. -/
theorem update_eq_some {b c : α} (h : Function.update f a (some b) u = some c) :
    (u = a ∧ c = b) ∨ (u ≠ a ∧ f u = some c) := by
  by_cases hua : u = a
  · subst hua
    rw [Function.update_self] at h
    exact .inl ⟨rfl, (Option.some.inj h).symm⟩
  · rw [Function.update_of_ne hua] at h
    exact .inr ⟨hua, h⟩

/-- Setting a key keeps every key that had a value. -/
theorem isSome_update (b : α) (h : (f u).isSome = true) :
    (Function.update f a (some b) u).isSome = true := by
  by_cases hua : u = a
  · rw [hua, Function.update_self]
    rfl
  · rw [Function.update_of_ne hua]
    exact h

end Update

/-- Every entry names a live box made for its own task; every box is non-null, writes
    to its own task's packet and names a task; a task that ended left its value in its
    packet; ids from `nextTid` on are unused; and a task inside `create` has one child of
    its own, still without an entry. -/
structure Inv (s : State) : Prop where
  table : ∀ u ptr, s.table u = some ptr → s.boxes ptr = some ⟨u, u⟩
  boxes : ∀ ptr th, s.boxes ptr = some th →
    ptr ≠ 0 ∧ th.retval = th.inner ∧ (s.tasks th.inner).isSome = true
  results : ∀ u v, s.tasks u = some (.exited v) → s.results u = v
  fresh : ∀ u, s.nextTid ≤ u → s.tasks u = none
  creating : ∀ u child, s.tasks u = some (.creating child) →
    (s.tasks child).isSome = true ∧ s.table child = none
  creating_inj : ∀ u₁ u₂ child, s.tasks u₁ = some (.creating child) →
    s.tasks u₂ = some (.creating child) → u₁ = u₂

namespace Inv

variable {s : State}

theorem tasks_isSome_of_table (hi : Inv s) {u ptr : Nat} (h : s.table u = some ptr) :
    (s.tasks u).isSome = true :=
  (hi.boxes ptr _ (hi.table u ptr h)).2.2

theorem lt_nextTid (hi : Inv s) {u : Nat} (h : (s.tasks u).isSome = true) : u < s.nextTid := by
  by_contra hge
  rw [hi.fresh u (Nat.le_of_not_lt hge)] at h
  cases h

/-- The caller's `current` is its own box, or none when it has no entry. -/
theorem current_eq (hi : Inv s) (t : Nat) :
    current s t = .ok ((s.table t).map fun _ => ⟨t, t⟩) := by
  unfold current currentPtr
  cases ht : s.table t with
  | none => rfl
  | some ptr =>
    have hb := hi.table t ptr ht
    have hne := (hi.boxes ptr _ hb).1
    simp only [Option.getD_some, if_neg hne, hb, Option.map_some]

/-- Under the invariant `exit_current` is the end of the start routine, for a task with
    an entry, and a panic for one without. -/
theorem exitCurrent_eq (hi : Inv s) (t v : Nat) :
    exitCurrent s t v = match s.table t with
      | none => .error noCurrentThread
      | some _ => .ok (mainReturn s t v) := by
  unfold exitCurrent
  rw [hi.current_eq t]
  cases s.table t <;> rfl

/-- A task moved to a phase that neither creates nor ends. -/
theorem setPhase (hi : Inv s) {t : Nat} (ht : (s.tasks t).isSome = true) {ph : Phase}
    (hc : ∀ c, ph ≠ .creating c) (he : ∀ v, ph ≠ .exited v) :
    Inv { s with tasks := Function.update s.tasks t (some ph) } := by
  have hlt := hi.lt_nextTid ht
  refine ⟨hi.table, fun ptr th h => ?_, fun u v h => ?_, fun u hu => ?_, fun u c h => ?_,
    fun u₁ u₂ c h₁ h₂ => ?_⟩ <;> dsimp only at *
  · obtain ⟨hne, hret, hs⟩ := hi.boxes ptr th h
    exact ⟨hne, hret, isSome_update _ hs⟩
  · rcases update_eq_some h with ⟨-, rfl⟩ | ⟨-, h⟩
    · exact absurd rfl (he v)
    · exact hi.results u v h
  · rw [Function.update_of_ne (by omega)]
    exact hi.fresh u hu
  · rcases update_eq_some h with ⟨-, rfl⟩ | ⟨-, h⟩
    · exact absurd rfl (hc c)
    · exact ⟨isSome_update _ (hi.creating u c h).1, (hi.creating u c h).2⟩
  · rcases update_eq_some h₁ with ⟨-, rfl⟩ | ⟨-, h₁⟩
    · exact absurd rfl (hc c)
    rcases update_eq_some h₂ with ⟨-, rfl⟩ | ⟨-, h₂⟩
    · exact absurd rfl (hc c)
    exact hi.creating_inj u₁ u₂ c h₁ h₂

/-- A task that ends with `v` and leaves it in its own packet. -/
theorem setExited (hi : Inv s) {t : Nat} (ht : (s.tasks t).isSome = true) (v : Nat) :
    Inv (mainReturn s t v) := by
  have hlt := hi.lt_nextTid ht
  refine ⟨hi.table, fun ptr th h => ?_, fun u w h => ?_, fun u hu => ?_, fun u c h => ?_,
    fun u₁ u₂ c h₁ h₂ => ?_⟩ <;> simp only [mainReturn] at *
  · obtain ⟨hne, hret, hs⟩ := hi.boxes ptr th h
    exact ⟨hne, hret, isSome_update _ hs⟩
  · rcases update_eq_some h with ⟨rfl, hw⟩ | ⟨hut, h⟩
    · rw [Function.update_self]
      exact (Phase.exited.inj hw).symm
    · rw [Function.update_of_ne hut]
      exact hi.results u w h
  · rw [Function.update_of_ne (by omega)]
    exact hi.fresh u hu
  · rcases update_eq_some h with ⟨-, hw⟩ | ⟨-, h⟩
    · cases hw
    · exact ⟨isSome_update _ (hi.creating u c h).1, (hi.creating u c h).2⟩
  · rcases update_eq_some h₁ with ⟨-, hw⟩ | ⟨-, h₁⟩
    · cases hw
    rcases update_eq_some h₂ with ⟨-, hw⟩ | ⟨-, h₂⟩
    · cases hw
    exact hi.creating_inj u₁ u₂ c h₁ h₂

/-- The phases after `createSpawn`: the caller creates the child `nextTid`, which runs,
    and every other task is as it was. -/
theorem createSpawn_tasks_eq_some {c u : Nat} {ph : Phase}
    (h : (createSpawn s c).tasks u = some ph) :
    (u = c ∧ ph = .creating s.nextTid) ∨ (u = s.nextTid ∧ ph = .running) ∨
      (u ≠ c ∧ u ≠ s.nextTid ∧ s.tasks u = some ph) := by
  rcases update_eq_some h with hc | ⟨huc, h⟩
  · exact .inl hc
  rcases update_eq_some h with hn | ⟨hun, h⟩
  · exact .inr (.inl hn)
  exact .inr (.inr ⟨huc, hun, h⟩)

theorem of_createSpawn (hi : Inv s) {c : Nat} (hc : s.tasks c = some .running) :
    Inv (createSpawn s c) := by
  have hlt : c < s.nextTid := hi.lt_nextTid (by rw [hc]; rfl)
  have hnone : s.tasks s.nextTid = none := hi.fresh _ (Nat.le_refl _)
  -- the child had no task, so no entry either
  have hnotab : s.table s.nextTid = none := by
    cases h : s.table s.nextTid with
    | none => rfl
    | some p =>
      have hs := hi.tasks_isSome_of_table h
      rw [hnone] at hs
      cases hs
  have hsome : ∀ u, (s.tasks u).isSome = true → ((createSpawn s c).tasks u).isSome = true :=
    fun u hu => isSome_update _ (isSome_update _ hu)
  refine ⟨hi.table, fun ptr th h => ?_, fun u v h => ?_, fun u hu => ?_, fun u ch h => ?_,
    fun u₁ u₂ ch h₁ h₂ => ?_⟩
  · obtain ⟨hne, hret, hs⟩ := hi.boxes ptr th h
    exact ⟨hne, hret, hsome _ hs⟩
  · rcases createSpawn_tasks_eq_some h with ⟨-, hv⟩ | ⟨-, hv⟩ | ⟨-, hun, h⟩
    · cases hv
    · cases hv
    · simp only [createSpawn]
      rw [Function.update_of_ne hun]
      exact hi.results u v h
  · simp only [createSpawn] at hu ⊢
    rw [Function.update_of_ne (by omega), Function.update_of_ne (by omega)]
    exact hi.fresh u (by omega)
  · rcases createSpawn_tasks_eq_some h with ⟨-, hv⟩ | ⟨-, hv⟩ | ⟨-, -, h⟩
    · cases hv
      refine ⟨?_, hnotab⟩
      simp only [createSpawn]
      rw [Function.update_of_ne (Nat.ne_of_gt hlt), Function.update_self]
      rfl
    · cases hv
    · exact ⟨hsome _ (hi.creating u ch h).1, (hi.creating u ch h).2⟩
  · -- the child is new, so no other task creates it
    have hother : ∀ u, s.tasks u ≠ some (.creating s.nextTid) := by
      intro u hu
      have hs := (hi.creating u _ hu).1
      rw [hnone] at hs
      cases hs
    rcases createSpawn_tasks_eq_some h₁ with ⟨rfl, hv₁⟩ | ⟨-, hv₁⟩ | ⟨-, -, hs₁⟩
    · rcases createSpawn_tasks_eq_some h₂ with ⟨rfl, -⟩ | ⟨-, hv₂⟩ | ⟨-, -, hs₂⟩
      · rfl
      · cases hv₂
      · cases hv₁
        exact absurd hs₂ (hother u₂)
    · cases hv₁
    · rcases createSpawn_tasks_eq_some h₂ with ⟨rfl, hv₂⟩ | ⟨-, hv₂⟩ | ⟨-, -, hs₂⟩
      · cases hv₂
        exact absurd hs₁ (hother u₁)
      · cases hv₂
      · exact hi.creating_inj u₁ u₂ ch hs₁ hs₂

/-- A live box for `child`, a task without an entry that no task is still creating,
    put at a free non-null address and entered for `child`. -/
theorem addEntry (hi : Inv s) {child ptr : Nat} (hchild : (s.tasks child).isSome = true)
    (hfree : s.table child = none) (hnc : ∀ u, s.tasks u ≠ some (.creating child))
    (hptr : ptr ≠ 0) (hbox : s.boxes ptr = none) :
    Inv { s with
      table := Function.update s.table child (some ptr)
      boxes := Function.update s.boxes ptr (some ⟨child, child⟩) } := by
  refine ⟨fun u p h => ?_, fun p th h => ?_, hi.results, hi.fresh, fun u c h => ?_,
    hi.creating_inj⟩ <;> dsimp only at *
  · by_cases hu : u = child
    · subst hu
      rw [Function.update_self] at h
      rw [← Option.some.inj h, Function.update_self]
    · rw [Function.update_of_ne hu] at h
      have hb := hi.table u p h
      -- the entry's box is live, so it is not at the free address
      have hp : p ≠ ptr := by rintro rfl; rw [hbox] at hb; cases hb
      rw [Function.update_of_ne hp]
      exact hb
  · by_cases hp : p = ptr
    · subst hp
      rw [Function.update_self] at h
      rw [← Option.some.inj h]
      exact ⟨hptr, rfl, hchild⟩
    · rw [Function.update_of_ne hp] at h
      exact hi.boxes p th h
  · have hc : c ≠ child := by rintro rfl; exact hnc u h
    refine ⟨(hi.creating u c h).1, ?_⟩
    rw [Function.update_of_ne hc]
    exact (hi.creating u c h).2

/-- The box at `ptr` freed, with the entry of its task. -/
theorem removeEntry (hi : Inv s) {ptr : Nat} {th : Pthread} (hbox : s.boxes ptr = some th) :
    Inv { s with
      table := Function.update s.table th.inner none
      boxes := Function.update s.boxes ptr none } := by
  refine ⟨fun u p h => ?_, fun p th' h => ?_, hi.results, hi.fresh, fun u c h => ?_,
    hi.creating_inj⟩ <;> dsimp only at *
  · have hu : u ≠ th.inner := by rintro rfl; simp at h
    rw [Function.update_of_ne hu] at h
    have hb := hi.table u p h
    -- the freed box is the one of `th.inner`, not of `u`
    have hp : p ≠ ptr := by
      rintro rfl
      rw [hbox] at hb
      exact hu (congrArg Pthread.inner (Option.some.inj hb)).symm
    rw [Function.update_of_ne hp]
    exact hb
  · have hp : p ≠ ptr := by rintro rfl; simp at h
    rw [Function.update_of_ne hp] at h
    exact hi.boxes p th' h
  · refine ⟨(hi.creating u c h).1, ?_⟩
    by_cases hc : c = th.inner
    · rw [hc, Function.update_self]
    · rw [Function.update_of_ne hc]
      exact (hi.creating u c h).2

end Inv

theorem inv_init (main ptr : Nat) (hptr : ptr ≠ 0) : Inv (State.init main ptr) := by
  constructor
  · intro u p h
    by_cases hu : u = main
    · subst hu
      simp only [State.init, Function.update_self, Option.some.injEq] at h ⊢
      rw [← h, Function.update_self]
    · simp [State.init, Function.update_of_ne hu] at h
  · intro p th h
    by_cases hp : p = ptr
    · subst hp
      simp only [State.init, Function.update_self, Option.some.injEq] at h ⊢
      subst h
      exact ⟨hptr, rfl, by simp⟩
    · simp [State.init, Function.update_of_ne hp] at h
  · intro u v h
    by_cases hu : u = main
    · subst hu
      simp [State.init] at h
    · simp [State.init, Function.update_of_ne hu] at h
  · intro u hu
    have hne : u ≠ main := by simp only [State.init] at hu; omega
    simp [State.init, Function.update_of_ne hne]
  · intro u c h
    by_cases hu : u = main
    · subst hu
      simp [State.init] at h
    · simp [State.init, Function.update_of_ne hu] at h
  · intro u₁ u₂ c h₁ _
    by_cases hu : u₁ = main
    · subst hu
      simp [State.init] at h₁
    · simp [State.init, Function.update_of_ne hu] at h₁

namespace Inv

variable {s : State}

/-- Every step keeps the invariant. -/
theorem of_step (hi : Inv s) {op : Op} {s' : State} (h : Step s op s') : Inv s' := by
  cases h with
  | create hc => exact hi.of_createSpawn hc
  | @insert t child ptr hc hptr hbox =>
    -- the creator goes back to running, then its child gets its entry
    have hrun : Inv { s with tasks := Function.update s.tasks t (some .running) } :=
      hi.setPhase (by rw [hc]; rfl) (fun _ h => nomatch h) (fun _ h => nomatch h)
    have hnc : ∀ u, Function.update s.tasks t (some .running) u ≠ some (.creating child) := by
      intro u hu
      rcases update_eq_some hu with ⟨-, hv⟩ | ⟨hut, hu⟩
      · cases hv
      · exact hut (hi.creating_inj u t child hu hc)
    exact hrun.addEntry (isSome_update _ (hi.creating t child hc).1) (hi.creating t child hc).2
      hnc hptr hbox
  | self => exact hi
  | @exit _ t v ht hex =>
    rw [hi.exitCurrent_eq] at hex
    split at hex
    · cases hex
    · cases hex
      exact hi.setExited (by rw [ht]; rfl) v
  | @ret t v ht => exact hi.setExited (by rw [ht]; rfl) v
  | @join _ t ptr r ht hj =>
    unfold joinStart at hj
    split_ifs at hj
    · cases hj
      exact hi
    · split at hj
      · cases hj
      · cases hj
        exact hi.setPhase (by rw [ht]; rfl) (fun _ h => nomatch h) (fun _ h => nomatch h)
  | @joined _ t ptr v ht hj =>
    unfold joinFinish at hj
    split at hj
    · cases hj
    · rename_i th hbox
      split at hj
      · cases hj
        -- the joiner goes back to running, then the box and its entry go
        have hrun : Inv { s with tasks := Function.update s.tasks t (some .running) } :=
          hi.setPhase (by rw [ht]; rfl) (fun _ h => nomatch h) (fun _ h => nomatch h)
        exact hrun.removeEntry hbox
      · cases hj

end Inv

/-- The bookkeeping holds in every reachable state. -/
theorem inv_of_reachable {s : State} (h : system.Reachable s) : Inv s := by
  refine LTS.Reachable.invariant ?_ (fun s _ _ (hi : Inv s) hs => hi.of_step hs) h
  rintro _ ⟨main, ptr, hptr, rfl⟩
  exact inv_init main ptr hptr

/-! ## §5 What `join` and `self` do -/

/-- A join on the box at `ptr` that returns gives the value the box's task ended with;
    that task's entry is removed and the box freed. -/
theorem joinFinish_spec {s s' : State} (hi : Inv s) {t ptr v : Nat}
    (h : joinFinish s t ptr = .ok (some (v, s'))) :
    ∃ th, s.boxes ptr = some th ∧ s.tasks th.inner = some (.exited v) ∧
      s'.table th.inner = none ∧ s'.boxes ptr = none := by
  unfold joinFinish at h
  split at h
  · cases h
  · rename_i th hbox
    split at h
    · rename_i w hw
      obtain ⟨rfl, rfl⟩ := Prod.mk.inj (Option.some.inj (Except.ok.inj h))
      refine ⟨th, hbox, ?_, Function.update_self _ _ _, Function.update_self _ _ _⟩
      -- the packet read is the task's own, which holds the value it ended with
      rw [(hi.boxes ptr th hbox).2.1, hi.results _ w hw]
      exact hw
    · cases h

/-- Once a join on `ptr` has returned, joining `ptr` again, from any task, is undefined:
    `Box::from_raw` rebuilds the freed box. -/
theorem joinStart_after_join {s s' : State} (hi : Inv s) {t ptr v : Nat}
    (ht : s.tasks t = some (.joining ptr)) (h : joinFinish s t ptr = .ok (some (v, s')))
    (t' : Nat) : joinStart s' t' ptr = .error .undefined := by
  obtain ⟨th, hbox, -, -, hfreed⟩ := joinFinish_spec hi h
  have hi' := hi.of_step (Step.joined ht h)
  -- the caller's own pointer is a live box, or null, and `ptr` is neither
  have hne : ptr ≠ currentPtr s' t' := by
    unfold currentPtr
    cases hct : s'.table t' with
    | none => exact (hi.boxes ptr th hbox).1
    | some p =>
      rintro rfl
      rw [hi'.table t' _ hct] at hfreed
      cases hfreed
  unfold joinStart
  rw [if_neg hne, hfreed]

/-- Between the two steps of `create` the new task has no entry: `pthread_self` and
    `pthread_exit` in it panic. -/
theorem self_panics_before_insert {s : State} (h : system.Reachable s) {c child : Nat}
    (hc : s.tasks c = some (.creating child)) :
    sysPthreadSelf s child = .error noCurrentThread ∧
      ∀ v, exitCurrent s child v = .error noCurrentThread := by
  have hi := inv_of_reachable h
  have hnone := (hi.creating c child hc).2
  refine ⟨?_, fun v => ?_⟩
  · unfold sysPthreadSelf
    rw [hi.current_eq, hnone]
    rfl
  · rw [hi.exitCurrent_eq, hnone]

/-- Two runs from a main task `0` with its box at `1`. In the first, task `1` is spawned and
    scheduled before its creator inserts its entry: its `pthread_self` panics. In the
    second, the creator inserts the box at `2`, task `1` returns `7`, and the creator joins
    it; a second join on `2` is undefined. -/
theorem pthread_create_race_and_rejoin :
    (∃ s, system.Run (State.init 0 1) [.create 0] s ∧ s.tasks 1 = some .running ∧
      sysPthreadSelf s 1 = .error noCurrentThread) ∧
    (∃ s, system.Run (State.init 0 1) [.create 0, .insert 0 2, .ret 1 7, .join 0 2, .joined 0] s ∧
      joinStart s 0 2 = .error .undefined) := by
  refine ⟨⟨_, LTS.Run.cons (Step.create rfl) (LTS.Run.nil _), rfl, rfl⟩, ?_⟩
  exact ⟨_, LTS.Run.cons (Step.create rfl) (LTS.Run.cons (Step.insert rfl (by decide) rfl)
    (LTS.Run.cons (Step.ret rfl) (LTS.Run.cons (Step.join rfl rfl)
      (LTS.Run.cons (Step.joined rfl rfl) (LTS.Run.nil _))))), rfl⟩

end Pthread

end ArceOS.Posix
