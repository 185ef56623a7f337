import ArceOS.Task.SchedInv

/-!
# The Sleeping Mutex

Model of `axsync::Mutex` (`mutex.rs`) over the scheduler of `ArceOS.Task.Sched`: the
mutex's `owner_id` and `wq`, and where each task stands in `lock` and `force_unlock`.

A step of a task's own code is one of `lock`'s turns (`compare_exchange_weak`, then
`assert_ne!` and `wait_until` on failure), `try_lock`, the `swap(0)` and `assert_eq!` of
`force_unlock` (a guard's drop), its `notify_one`, or a `yield`, which also stands for
a preemption between two of these. Inside `wait_until` the task takes the steps of the
scheduler's `wait_until`, and its condition `!is_locked()` reads `owner_id` under
`RUN_QUEUE`. A panic (`assert_ne!` or `assert_eq!`) stops the system: it is no step.

## Main definitions

- `MutexSys`, `MutexSys.init`: the state, and the state before any call;
- `MutexSys.casWeak`, `tryLock`, `unlockSwap`, `unlockNotify`: the code;
- `MutexSys.next`, `mutexSystem`: the system.
-/

namespace ArceOS.Sync

open ArceOS.Lib ArceOS.Task

/-- `TaskId::as_u64`: the ids of `axtask` count from 1, those of the model from 0. -/
def asU64 (t : TaskId) : Nat := t + 1

theorem asU64_ne_zero (t : TaskId) : asU64 t ≠ 0 := Nat.succ_ne_zero t

theorem asU64_injective : Function.Injective asU64 := fun _ _ h => Nat.succ.inj h

/-- The mutex's wait queue `wq`. -/
def mutexQueue : QueueId := .named 0

/-- Where a task stands in the calls of the mutex. -/
inductive Phase where
  /-- In none of its calls, and holding no guard. -/
  | outside
  /-- In `lock`, at its `compare_exchange_weak`. -/
  | locking
  /-- In `lock`, inside `wq.wait_until(|| !self.is_locked())`. -/
  | waiting
  /-- Holding the guard. -/
  | holding
  /-- In `force_unlock`, between `swap(0)` and `notify_one`. -/
  | unlocking
  deriving DecidableEq, Repr

/-- The scheduler, the mutex's `owner_id` and each task's phase. -/
structure MutexSys where
  sched : Sched
  ownerId : Nat
  phase : TaskId → Phase

namespace MutexSys

variable (m : MutexSys)

/-- The task's phase moves. -/
def setPhase (t : TaskId) (p : Phase) : MutexSys := { m with phase := Function.update m.phase t p }

@[simp] theorem setPhase_phase {t u : TaskId} {p : Phase} :
    (m.setPhase t p).phase u = if u = t then p else m.phase u := by
  simp [setPhase, Function.update_apply]

@[simp] theorem setPhase_sched {t : TaskId} {p : Phase} : (m.setPhase t p).sched = m.sched := rfl
@[simp] theorem setPhase_ownerId {t : TaskId} {p : Phase} : (m.setPhase t p).ownerId = m.ownerId := rfl

/-- One turn of `lock`'s loop for the current task: `compare_exchange_weak(0,
    current_id)`, which may fail although the mutex is free (`spurious`); on failure
    `assert_ne!` on the value read, and `wait_until(|| !is_locked())`. -/
def casWeak (spurious : Bool) : Except String MutexSys :=
  let c := m.sched.current
  if m.ownerId = 0 ∧ spurious = false then .ok { m.setPhase c .holding with ownerId := asU64 c }
  -- `Err(owner_id)` carries the value read, 0 after a spurious failure
  else if m.ownerId = asU64 c then .error "tried to acquire mutex it already owns."
  else .ok { m.setPhase c .waiting with sched := m.sched.call (.waitUntil mutexQueue) }

/-- `try_lock`: the strong `compare_exchange(0, current_id)`; whether it locked. -/
def tryLock : Bool × MutexSys :=
  let c := m.sched.current
  if m.ownerId = 0 then (true, { m.setPhase c .holding with ownerId := asU64 c }) else (false, m)

/-- The first half of `force_unlock`: `swap(0)`, and `assert_eq!` that the current task
    owned the mutex. -/
def unlockSwap : Except String MutexSys :=
  let c := m.sched.current
  if m.ownerId = asU64 c then .ok { m.setPhase c .unlocking with ownerId := 0 }
  else .error "tried to release mutex it doesn't own"

/-- The second half of `force_unlock`: `wq.notify_one(true)`. -/
def unlockNotify : MutexSys :=
  { m.setPhase m.sched.current .outside with sched := m.sched.call (.notifyOne mutexQueue) }

/-- The next step of `wait_until` for the current task, whose condition `!is_locked()`
    reads `owner_id`; when `wait_until` returns, `lock` goes round its loop. -/
def resumeWait : Option MutexSys :=
  let c := m.sched.current
  (m.sched.resume (m.ownerId == 0)).map fun s =>
    if s.pc c = .user then { m.setPhase c .locking with sched := s } else { m with sched := s }

/-- The state before any call: the scheduler as `init_scheduler` leaves it and the mutex
    free (`Mutex::new`). -/
def init : MutexSys where
  sched := ArceOS.Task.init
  ownerId := 0
  phase _ := .outside

end MutexSys

/-- A step: of the current task's own code, of its `wait_until`, or time passing. -/
inductive MutexAction where
  | spawn
  | yield
  | lock (spurious : Bool)
  | tryLock
  | unlock
  | notify
  | resume
  | tick
  deriving DecidableEq, Repr

namespace MutexSys

variable (m : MutexSys)

/-- The current task runs its own code and is not idle, which only yields. -/
def OwnCode : Prop := m.sched.pc m.sched.current = .user ∧ m.sched.current ≠ idle

instance : Decidable m.OwnCode := inferInstanceAs (Decidable (_ ∧ _))

/-- One step of the system; a panic is none. -/
def next : MutexAction → Option MutexSys
  | .spawn =>
    if m.OwnCode ∧ (m.phase m.sched.current = .outside ∨ m.phase m.sched.current = .holding) then
      some { m with sched := m.sched.call .spawn }
    else none
  | .yield =>
    if m.sched.pc m.sched.current = .user then some { m with sched := m.sched.call .yield } else none
  | .lock spurious =>
    if m.OwnCode ∧ m.phase m.sched.current ≠ .waiting ∧ m.phase m.sched.current ≠ .unlocking then
      match m.casWeak spurious with
      | .ok m' => some m'
      | .error _ => none
    else none
  | .tryLock =>
    if m.OwnCode ∧ (m.phase m.sched.current = .outside ∨ m.phase m.sched.current = .holding) then
      some m.tryLock.2
    else none
  | .unlock =>
    if m.OwnCode ∧ m.phase m.sched.current = .holding then
      match m.unlockSwap with
      | .ok m' => some m'
      | .error _ => none
    else none
  | .notify => if m.OwnCode ∧ m.phase m.sched.current = .unlocking then some m.unlockNotify else none
  | .resume => if m.phase m.sched.current = .waiting then m.resumeWait else none
  | .tick => some { m with sched := { m.sched with now := m.sched.now + 1 } }

end MutexSys

/-- The mutex over the scheduler, over every interleaving of the tasks' calls. -/
def mutexSystem : LTS MutexSys MutexAction := LTS.ofNext (· = MutexSys.init) MutexSys.next

end ArceOS.Sync
