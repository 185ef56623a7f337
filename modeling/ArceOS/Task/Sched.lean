import ArceOS.Lib.Transition

/-!
# The Task Scheduler

Model of `axtask` on one CPU with the FIFO scheduler (`run_queue.rs`,
`wait_queue.rs`, `timers.rs`, `api.rs`): the tasks with their state and their
`in_wait_queue` and `in_timer_list` flags, the scheduler's ready queue, the wait
queues, the timer list and the clock.

One CPU runs the current task. A step is a stretch of code that no interrupt
splits: a region under the `RUN_QUEUE` lock or another lock that disables
interrupts, or code that touches nothing an interrupt handler reads. Between two
steps a timer interrupt may expire an event (`check_events`) and time may pass.
A call of `WaitQueue` is cut at each point where it leaves such a region, and the
point it stands at is the task's `Pc`; the current task's next step goes on from
there. The tasks' own code is any sequence of calls (`Call`), and the condition a
`wait_until` evaluates is any value, so the model contains every run the code
has.

The `scheduler` and `timer_list` crates are third parties: the FIFO scheduler is
a queue (`add_task` and `put_prev_task` push at the back, `pick_next_task` pops
the front), and the timer list expires its earliest event once its deadline has
passed.

## Main definitions

- `Sched`, `init`: the state and the state `init_scheduler` leaves;
- `resched`, `unblockTask`, `blockCurrent`, `notifyOneLocked`, ...: the code;
- `next`, `schedSystem`: the system.
-/

namespace ArceOS.Task

open ArceOS.Lib

/-! ## §1 Tasks, queues and states -/

/-- A task, by its id. -/
abbrev TaskId := Nat

/-- `TaskState`. -/
inductive TaskState where
  | running
  | ready
  | blocked
  | exited
  deriving DecidableEq, Repr

/-- The wait queues: those of the tasks' own code, the `wait_for_exit` queue of
    each task, and `WAIT_FOR_EXIT`. -/
inductive QueueId where
  | named (n : Nat)
  | exitOf (t : TaskId)
  | waitForExit
  deriving DecidableEq, Repr

/-- Where a task stands in the calls of `WaitQueue` and `notify_all`, between two
    of its steps; a blocked task stands where it goes on when it runs again. -/
inductive Pc where
  /-- In its own code. -/
  | user
  /-- `wait_until`: at the head of its loop. -/
  | untilCheck (q : QueueId)
  /-- `wait_timeout`: the alarm is set, `block_current` comes next. -/
  | timeoutBlock (q : QueueId)
  /-- `wait_timeout`: back from `block_current`. -/
  | timeoutResume (q : QueueId)
  /-- `wait_timeout_until`: at `while wall_time() < deadline`. -/
  | tuLoop (q : QueueId) (deadline : Nat)
  /-- `wait_timeout_until`: in the loop, before it takes `RUN_QUEUE`. -/
  | tuCheck (q : QueueId) (deadline : Nat)
  /-- `cancel_events`, at its wait-queue half; then the call returns `ret`. -/
  | cancelWq (q : QueueId) (ret : Option Bool)
  /-- `cancel_events`, at its timer half; then the call returns `ret`. -/
  | cancelTimer (ret : Option Bool)
  /-- `notify_all`: between two turns of its loop. -/
  | notifyAll (q : QueueId)
  deriving DecidableEq, Repr

/-- The wait queue a task at `p` waits on, if it waits. -/
def Pc.queue? : Pc → Option QueueId
  | .untilCheck q | .timeoutBlock q | .timeoutResume q | .tuLoop q _ | .tuCheck q _ | .cancelWq q _ => some q
  | .user | .cancelTimer _ | .notifyAll _ => none

/-- The points of the calls that set an alarm, where the task's timer event may
    be pending. -/
def Pc.timed : Pc → Bool
  | .timeoutBlock _ | .timeoutResume _ | .tuLoop _ _ | .tuCheck _ _ => true
  | .cancelWq _ ret | .cancelTimer ret => ret.isSome
  | .user | .untilCheck _ | .notifyAll _ => false

/-- The idle task, which runs when no other task is ready. -/
def idle : TaskId := 0

/-- The main task (`is_init`), whose exit terminates the system. -/
def mainTask : TaskId := 1

/-- The `gc` task that `AxRunQueue::new` adds. -/
def gcTask : TaskId := 2

/-- The scheduler state: each task's state, flags and point, the current task,
    the FIFO ready queue, the wait queues, the timer list's events `(deadline,
    task)`, the clock, and the first id not given to a task yet. -/
structure Sched where
  state : TaskId → TaskState
  inWaitQueue : TaskId → Bool
  inTimerList : TaskId → Bool
  pc : TaskId → Pc
  current : TaskId
  ready : List TaskId
  waitQueues : QueueId → List TaskId
  timers : List (Nat × TaskId)
  now : Nat
  nextId : Nat

/-! ## §2 Updates of the state -/

namespace Sched

variable (s : Sched)

/-- `set_state`. -/
def setState (t : TaskId) (st : TaskState) : Sched := { s with state := Function.update s.state t st }

/-- The task's point moves. -/
def setPc (t : TaskId) (p : Pc) : Sched := { s with pc := Function.update s.pc t p }

/-- `set_in_wait_queue`. -/
def setInWaitQueue (t : TaskId) (b : Bool) : Sched :=
  { s with inWaitQueue := Function.update s.inWaitQueue t b }

/-- `set_in_timer_list`. -/
def setInTimerList (t : TaskId) (b : Bool) : Sched :=
  { s with inTimerList := Function.update s.inTimerList t b }

/-- The wait queue `q` becomes `l`. -/
def setWaitQueue (q : QueueId) (l : List TaskId) : Sched :=
  { s with waitQueues := Function.update s.waitQueues q l }

section Frame

variable {s} {t u : TaskId} {st : TaskState} {p : Pc} {b : Bool} {q : QueueId} {l : List TaskId}

@[simp] theorem setState_state : (s.setState t st).state u = if u = t then st else s.state u := by
  simp [setState, Function.update_apply]

@[simp] theorem setState_inWaitQueue : (s.setState t st).inWaitQueue = s.inWaitQueue := rfl
@[simp] theorem setState_inTimerList : (s.setState t st).inTimerList = s.inTimerList := rfl
@[simp] theorem setState_pc : (s.setState t st).pc = s.pc := rfl
@[simp] theorem setState_current : (s.setState t st).current = s.current := rfl
@[simp] theorem setState_ready : (s.setState t st).ready = s.ready := rfl
@[simp] theorem setState_waitQueues : (s.setState t st).waitQueues = s.waitQueues := rfl
@[simp] theorem setState_timers : (s.setState t st).timers = s.timers := rfl
@[simp] theorem setState_now : (s.setState t st).now = s.now := rfl
@[simp] theorem setState_nextId : (s.setState t st).nextId = s.nextId := rfl

@[simp] theorem setPc_pc : (s.setPc t p).pc u = if u = t then p else s.pc u := by
  simp [setPc, Function.update_apply]

@[simp] theorem setPc_state : (s.setPc t p).state = s.state := rfl
@[simp] theorem setPc_inWaitQueue : (s.setPc t p).inWaitQueue = s.inWaitQueue := rfl
@[simp] theorem setPc_inTimerList : (s.setPc t p).inTimerList = s.inTimerList := rfl
@[simp] theorem setPc_current : (s.setPc t p).current = s.current := rfl
@[simp] theorem setPc_ready : (s.setPc t p).ready = s.ready := rfl
@[simp] theorem setPc_waitQueues : (s.setPc t p).waitQueues = s.waitQueues := rfl
@[simp] theorem setPc_timers : (s.setPc t p).timers = s.timers := rfl
@[simp] theorem setPc_now : (s.setPc t p).now = s.now := rfl
@[simp] theorem setPc_nextId : (s.setPc t p).nextId = s.nextId := rfl

@[simp] theorem setInWaitQueue_inWaitQueue :
    (s.setInWaitQueue t b).inWaitQueue u = if u = t then b else s.inWaitQueue u := by
  simp [setInWaitQueue, Function.update_apply]

@[simp] theorem setInWaitQueue_state : (s.setInWaitQueue t b).state = s.state := rfl
@[simp] theorem setInWaitQueue_inTimerList : (s.setInWaitQueue t b).inTimerList = s.inTimerList := rfl
@[simp] theorem setInWaitQueue_pc : (s.setInWaitQueue t b).pc = s.pc := rfl
@[simp] theorem setInWaitQueue_current : (s.setInWaitQueue t b).current = s.current := rfl
@[simp] theorem setInWaitQueue_ready : (s.setInWaitQueue t b).ready = s.ready := rfl
@[simp] theorem setInWaitQueue_waitQueues : (s.setInWaitQueue t b).waitQueues = s.waitQueues := rfl
@[simp] theorem setInWaitQueue_timers : (s.setInWaitQueue t b).timers = s.timers := rfl
@[simp] theorem setInWaitQueue_now : (s.setInWaitQueue t b).now = s.now := rfl
@[simp] theorem setInWaitQueue_nextId : (s.setInWaitQueue t b).nextId = s.nextId := rfl

@[simp] theorem setInTimerList_inTimerList :
    (s.setInTimerList t b).inTimerList u = if u = t then b else s.inTimerList u := by
  simp [setInTimerList, Function.update_apply]

@[simp] theorem setInTimerList_state : (s.setInTimerList t b).state = s.state := rfl
@[simp] theorem setInTimerList_inWaitQueue : (s.setInTimerList t b).inWaitQueue = s.inWaitQueue := rfl
@[simp] theorem setInTimerList_pc : (s.setInTimerList t b).pc = s.pc := rfl
@[simp] theorem setInTimerList_current : (s.setInTimerList t b).current = s.current := rfl
@[simp] theorem setInTimerList_ready : (s.setInTimerList t b).ready = s.ready := rfl
@[simp] theorem setInTimerList_waitQueues : (s.setInTimerList t b).waitQueues = s.waitQueues := rfl
@[simp] theorem setInTimerList_timers : (s.setInTimerList t b).timers = s.timers := rfl
@[simp] theorem setInTimerList_now : (s.setInTimerList t b).now = s.now := rfl
@[simp] theorem setInTimerList_nextId : (s.setInTimerList t b).nextId = s.nextId := rfl

@[simp] theorem setWaitQueue_waitQueues {r : QueueId} :
    (s.setWaitQueue q l).waitQueues r = if r = q then l else s.waitQueues r := by
  simp [setWaitQueue, Function.update_apply]

@[simp] theorem setWaitQueue_state : (s.setWaitQueue q l).state = s.state := rfl
@[simp] theorem setWaitQueue_inWaitQueue : (s.setWaitQueue q l).inWaitQueue = s.inWaitQueue := rfl
@[simp] theorem setWaitQueue_inTimerList : (s.setWaitQueue q l).inTimerList = s.inTimerList := rfl
@[simp] theorem setWaitQueue_pc : (s.setWaitQueue q l).pc = s.pc := rfl
@[simp] theorem setWaitQueue_current : (s.setWaitQueue q l).current = s.current := rfl
@[simp] theorem setWaitQueue_ready : (s.setWaitQueue q l).ready = s.ready := rfl
@[simp] theorem setWaitQueue_timers : (s.setWaitQueue q l).timers = s.timers := rfl
@[simp] theorem setWaitQueue_now : (s.setWaitQueue q l).now = s.now := rfl
@[simp] theorem setWaitQueue_nextId : (s.setWaitQueue q l).nextId = s.nextId := rfl

end Frame

/-! ## §3 The run queue, the wait queues and the timers -/

/-- `AxRunQueue::unblock_task`: a blocked task becomes ready and joins the back of
    the ready queue; any other task is left alone. -/
def unblockTask (t : TaskId) : Sched :=
  if s.state t = .blocked then { s.setState t .ready with ready := s.ready ++ [t] } else s

/-- The first half of `AxRunQueue::resched`: a running current task becomes ready
    and, unless it is idle, goes back to the scheduler (`put_prev_task`). -/
def putPrev : Sched :=
  let prev := s.current
  if s.state prev = .running then
    let s := s.setState prev .ready
    if prev ≠ idle then { s with ready := s.ready ++ [prev] } else s
  else s

/-- The second half of `resched`: `pick_next_task`, or idle when the queue is
    empty, and `switch_to` it. -/
def switchToNext : Sched :=
  match s.ready with
  | [] => { s.setState idle .running with current := idle }
  | next :: rest => { s.setState next .running with ready := rest, current := next }

/-- `AxRunQueue::resched`. -/
def resched : Sched := s.putPrev.switchToNext

/-- `AxRunQueue::block_current` with the push that `WaitQueue`'s wait functions
    give it: the current task is blocked, flagged and queued at the back of `q`,
    and the next task runs. -/
def blockCurrent (q : QueueId) : Sched :=
  let c := s.current
  let s := (s.setState c .blocked).setInWaitQueue c true
  (s.setWaitQueue q (s.waitQueues q ++ [c])).resched

/-- `timers::set_alarm_wakeup`. -/
def setAlarmWakeup (deadline : Nat) (t : TaskId) : Sched :=
  { s.setInTimerList t true with timers := s.timers ++ [(deadline, t)] }

/-- `timers::cancel_alarm`: every event of `t` is cancelled. -/
def cancelAlarm (t : TaskId) : Sched :=
  { s.setInTimerList t false with timers := s.timers.filter fun e => e.2 != t }

/-- `TaskWakeupEvent::callback`. -/
def timerCallback (t : TaskId) : Sched := (s.setInTimerList t false).unblockTask t

/-- `notify_one_locked`: the task at the front of `q`, if any, leaves it, is
    unflagged and unblocked; whether there was one. -/
def notifyOneLocked (q : QueueId) : Bool × Sched :=
  match s.waitQueues q with
  | [] => (false, s)
  | t :: rest => (true, ((s.setWaitQueue q rest).setInWaitQueue t false).unblockTask t)

/-- `notify_all_locked`: `notify_one_locked` until `q` is empty, which takes as
    many turns as `q` has tasks (unblocking queues no task). -/
def notifyAllLocked (q : QueueId) : Sched :=
  (fun s : Sched => (s.notifyOneLocked q).2)^[(s.waitQueues q).length] s

/-- `WaitQueue::notify_task`: `position` finds the first occurrence of `t` in `q`,
    which `remove` takes out; `t` is then unflagged and unblocked. -/
def notifyTask (q : QueueId) (t : TaskId) : Bool × Sched :=
  if t ∈ s.waitQueues q then
    (true, ((s.setWaitQueue q ((s.waitQueues q).erase t)).setInWaitQueue t false).unblockTask t)
  else (false, s)

/-- The wait-queue half of `cancel_events`: a task still flagged is taken out of
    `q` (`retain`) and unflagged. -/
def cancelWq (t : TaskId) (q : QueueId) : Sched :=
  if s.inWaitQueue t then
    (s.setWaitQueue q ((s.waitQueues q).filter fun u => u != t)).setInWaitQueue t false
  else s

/-- The timer half of `cancel_events`. -/
def cancelTimer (t : TaskId) : Sched := if s.inTimerList t then s.cancelAlarm t else s

/-- `spawn_task`: a new ready task, unflagged and in its own code, joins the back
    of the ready queue. -/
def spawnTask : Sched :=
  let t := s.nextId
  let s := (((s.setState t .ready).setInWaitQueue t false).setInTimerList t false).setPc t .user
  { s with ready := s.ready ++ [t], nextId := t + 1 }

/-- `AxRunQueue::sleep_until`: before the deadline, an alarm is set and the
    current task blocks. -/
def sleepUntil (deadline : Nat) : Sched :=
  let c := s.current
  if s.now < deadline then ((s.setAlarmWakeup deadline c).setState c .blocked).resched else s

/-- `AxRunQueue::exit_current` of a task other than the main one: it exits, its
    joiners (`notify_exit`) and one task of `WAIT_FOR_EXIT` are woken, and the
    next task runs. -/
def exitCurrent : Sched :=
  let c := s.current
  let s := (s.setState c .exited).notifyAllLocked (.exitOf c)
  (s.notifyOneLocked .waitForExit).2.resched

section Frame

variable {s} {t : TaskId} {d : Nat} {st : TaskState} {p : Pc}

/-! The run queue's operations touch only the states, the current task and the ready
queue. -/

@[simp] theorem unblockTask_inWaitQueue : (s.unblockTask t).inWaitQueue = s.inWaitQueue := by
  unfold unblockTask; split <;> rfl
@[simp] theorem unblockTask_inTimerList : (s.unblockTask t).inTimerList = s.inTimerList := by
  unfold unblockTask; split <;> rfl
@[simp] theorem unblockTask_pc : (s.unblockTask t).pc = s.pc := by
  unfold unblockTask; split <;> rfl
@[simp] theorem unblockTask_current : (s.unblockTask t).current = s.current := by
  unfold unblockTask; split <;> rfl
@[simp] theorem unblockTask_waitQueues : (s.unblockTask t).waitQueues = s.waitQueues := by
  unfold unblockTask; split <;> rfl
@[simp] theorem unblockTask_timers : (s.unblockTask t).timers = s.timers := by
  unfold unblockTask; split <;> rfl
@[simp] theorem unblockTask_now : (s.unblockTask t).now = s.now := by
  unfold unblockTask; split <;> rfl
@[simp] theorem unblockTask_nextId : (s.unblockTask t).nextId = s.nextId := by
  unfold unblockTask; split <;> rfl

@[simp] theorem putPrev_inWaitQueue : s.putPrev.inWaitQueue = s.inWaitQueue := by
  dsimp only [putPrev]; split_ifs <;> rfl
@[simp] theorem putPrev_inTimerList : s.putPrev.inTimerList = s.inTimerList := by
  dsimp only [putPrev]; split_ifs <;> rfl
@[simp] theorem putPrev_pc : s.putPrev.pc = s.pc := by
  dsimp only [putPrev]; split_ifs <;> rfl
@[simp] theorem putPrev_current : s.putPrev.current = s.current := by
  dsimp only [putPrev]; split_ifs <;> rfl
@[simp] theorem putPrev_waitQueues : s.putPrev.waitQueues = s.waitQueues := by
  dsimp only [putPrev]; split_ifs <;> rfl
@[simp] theorem putPrev_timers : s.putPrev.timers = s.timers := by
  dsimp only [putPrev]; split_ifs <;> rfl
@[simp] theorem putPrev_now : s.putPrev.now = s.now := by
  dsimp only [putPrev]; split_ifs <;> rfl
@[simp] theorem putPrev_nextId : s.putPrev.nextId = s.nextId := by
  dsimp only [putPrev]; split_ifs <;> rfl

@[simp] theorem switchToNext_inWaitQueue : s.switchToNext.inWaitQueue = s.inWaitQueue := by
  unfold switchToNext; split <;> rfl
@[simp] theorem switchToNext_inTimerList : s.switchToNext.inTimerList = s.inTimerList := by
  unfold switchToNext; split <;> rfl
@[simp] theorem switchToNext_pc : s.switchToNext.pc = s.pc := by
  unfold switchToNext; split <;> rfl
@[simp] theorem switchToNext_waitQueues : s.switchToNext.waitQueues = s.waitQueues := by
  unfold switchToNext; split <;> rfl
@[simp] theorem switchToNext_timers : s.switchToNext.timers = s.timers := by
  unfold switchToNext; split <;> rfl
@[simp] theorem switchToNext_now : s.switchToNext.now = s.now := by
  unfold switchToNext; split <;> rfl
@[simp] theorem switchToNext_nextId : s.switchToNext.nextId = s.nextId := by
  unfold switchToNext; split <;> rfl

/-! The halves of `cancel_events` touch only the wait queues and their flags, or the
timer events and their flags. -/

@[simp] theorem cancelWq_state {q : QueueId} : (s.cancelWq t q).state = s.state := by
  unfold cancelWq; split <;> rfl
@[simp] theorem cancelWq_inTimerList {q : QueueId} : (s.cancelWq t q).inTimerList = s.inTimerList := by
  unfold cancelWq; split <;> rfl
@[simp] theorem cancelWq_pc {q : QueueId} : (s.cancelWq t q).pc = s.pc := by
  unfold cancelWq; split <;> rfl
@[simp] theorem cancelWq_current {q : QueueId} : (s.cancelWq t q).current = s.current := by
  unfold cancelWq; split <;> rfl
@[simp] theorem cancelWq_ready {q : QueueId} : (s.cancelWq t q).ready = s.ready := by
  unfold cancelWq; split <;> rfl
@[simp] theorem cancelWq_timers {q : QueueId} : (s.cancelWq t q).timers = s.timers := by
  unfold cancelWq; split <;> rfl
@[simp] theorem cancelWq_nextId {q : QueueId} : (s.cancelWq t q).nextId = s.nextId := by
  unfold cancelWq; split <;> rfl

@[simp] theorem cancelTimer_state : (s.cancelTimer t).state = s.state := by
  unfold cancelTimer; split <;> rfl
@[simp] theorem cancelTimer_inWaitQueue : (s.cancelTimer t).inWaitQueue = s.inWaitQueue := by
  unfold cancelTimer; split <;> rfl
@[simp] theorem cancelTimer_pc : (s.cancelTimer t).pc = s.pc := by
  unfold cancelTimer; split <;> rfl
@[simp] theorem cancelTimer_current : (s.cancelTimer t).current = s.current := by
  unfold cancelTimer; split <;> rfl
@[simp] theorem cancelTimer_ready : (s.cancelTimer t).ready = s.ready := by
  unfold cancelTimer; split <;> rfl
@[simp] theorem cancelTimer_waitQueues : (s.cancelTimer t).waitQueues = s.waitQueues := by
  unfold cancelTimer; split <;> rfl
@[simp] theorem cancelTimer_nextId : (s.cancelTimer t).nextId = s.nextId := by
  unfold cancelTimer; split <;> rfl

/-- After `cancel_events`, the task is unflagged. -/
@[simp] theorem cancelWq_inWaitQueue_self {q : QueueId} : (s.cancelWq t q).inWaitQueue t = false := by
  unfold cancelWq; split <;> simp_all

@[simp] theorem cancelTimer_inTimerList_self : (s.cancelTimer t).inTimerList t = false := by
  unfold cancelTimer cancelAlarm; split <;> simp_all

/-! `spawn_task` creates the task `nextId`; `block_current` and `notify_one_locked`
move no task's point. -/

@[simp] theorem spawnTask_state {u : TaskId} :
    s.spawnTask.state u = if u = s.nextId then .ready else s.state u := by
  simp [spawnTask]

@[simp] theorem spawnTask_pc {u : TaskId} : s.spawnTask.pc u = if u = s.nextId then .user else s.pc u := by
  simp [spawnTask]

@[simp] theorem spawnTask_waitQueues : s.spawnTask.waitQueues = s.waitQueues := rfl
@[simp] theorem spawnTask_nextId : s.spawnTask.nextId = s.nextId + 1 := rfl
@[simp] theorem spawnTask_current : s.spawnTask.current = s.current := rfl

@[simp] theorem blockCurrent_pc {q : QueueId} : (s.blockCurrent q).pc = s.pc := by
  simp [blockCurrent, resched]

@[simp] theorem notifyOneLocked_pc {q : QueueId} : (s.notifyOneLocked q).2.pc = s.pc := by
  unfold notifyOneLocked; split <;> simp

@[simp] theorem notifyOneLocked_current {q : QueueId} : (s.notifyOneLocked q).2.current = s.current := by
  unfold notifyOneLocked; split <;> simp

@[simp] theorem notifyOneLocked_nextId {q : QueueId} : (s.notifyOneLocked q).2.nextId = s.nextId := by
  unfold notifyOneLocked; split <;> simp

/-- A blocked task is unblocked, and only it. -/
theorem unblockTask_state {u : TaskId} :
    (s.unblockTask t).state u = if u = t ∧ s.state t = .blocked then .ready else s.state u := by
  unfold unblockTask
  split_ifs with hb hu hu <;> simp_all

/-- The alarm commutes with the updates of the task's point and state. -/
theorem setAlarmWakeup_setPc {u : TaskId} :
    (s.setAlarmWakeup d t).setPc u p = (s.setPc u p).setAlarmWakeup d t := rfl

theorem setAlarmWakeup_setState {u : TaskId} :
    (s.setAlarmWakeup d t).setState u st = (s.setState u st).setAlarmWakeup d t := rfl

end Frame

end Sched

/-! ## §4 Steps -/

/-- A call that the tasks' own code makes. -/
inductive Call where
  | spawn
  | yield
  | wait (q : QueueId)
  | waitUntil (q : QueueId)
  | waitTimeout (q : QueueId) (dur : Nat)
  | waitTimeoutUntil (q : QueueId) (dur : Nat)
  | notifyOne (q : QueueId)
  | notifyAll (q : QueueId)
  | notifyTask (q : QueueId) (t : TaskId)
  | sleepUntil (deadline : Nat)
  | exit
  deriving DecidableEq, Repr

/-- Whether task `t` may make the call: the idle task only yields (`run_idle`),
    and the main task's exit terminates the system, after which nothing runs. -/
def Call.allowed : Call → TaskId → Bool
  | .yield, _ => true
  | .exit, t => t != idle && t != mainTask
  | _, t => t != idle

/-- A step: a call from the current task's own code, the next step of the call
    it is in (`cond` is what a `condition()` it evaluates returns), the expiry of
    a timer event, or time passing. -/
inductive Action where
  | call (c : Call)
  | resume (cond : Bool)
  | timer (deadline : Nat) (t : TaskId)
  | tick
  deriving DecidableEq, Repr

namespace Sched

variable (s : Sched)

/-- The first step of a call. -/
def call : Call → Sched
  | .spawn => s.spawnTask
  | .yield => s.resched
  | .wait q => (s.setPc s.current (.cancelWq q none)).blockCurrent q
  | .waitUntil q => s.setPc s.current (.untilCheck q)
  | .waitTimeout q dur => (s.setAlarmWakeup (s.now + dur) s.current).setPc s.current (.timeoutBlock q)
  | .waitTimeoutUntil q dur =>
    (s.setAlarmWakeup (s.now + dur) s.current).setPc s.current (.tuLoop q (s.now + dur))
  | .notifyOne q => (s.notifyOneLocked q).2
  | .notifyAll q => s.setPc s.current (.notifyAll q)
  | .notifyTask q t => (s.notifyTask q t).2
  | .sleepUntil deadline => s.sleepUntil deadline
  | .exit => s.exitCurrent

/-- The current task's next step in the call it is in. -/
def resume (cond : Bool) : Option Sched :=
  let c := s.current
  match s.pc c with
  | .user => none
  -- `wait_until`: with `RUN_QUEUE` held, leave on the condition or block again
  | .untilCheck q => some (if cond then s.setPc c (.cancelWq q none) else s.blockCurrent q)
  | .timeoutBlock q => some ((s.setPc c (.timeoutResume q)).blockCurrent q)
  -- `wait_timeout`: still queued means timed out
  | .timeoutResume q => some (s.setPc c (.cancelWq q (some (s.inWaitQueue c))))
  | .tuLoop q d => some (if s.now < d then s.setPc c (.tuCheck q d) else s.setPc c (.cancelWq q (some true)))
  | .tuCheck q d =>
    some (if cond then s.setPc c (.cancelWq q (some false)) else (s.setPc c (.tuLoop q d)).blockCurrent q)
  | .cancelWq q ret => some ((s.cancelWq c q).setPc c (.cancelTimer ret))
  | .cancelTimer _ => some ((s.cancelTimer c).setPc c .user)
  | .notifyAll q => some (if s.waitQueues q = [] then s.setPc c .user else (s.notifyOneLocked q).2)

/-- `check_events` may expire the event `(deadline, t)`: its deadline has passed
    and no event is earlier. -/
def Expires (deadline : Nat) (t : TaskId) : Prop :=
  (deadline, t) ∈ s.timers ∧ deadline ≤ s.now ∧ ∀ e ∈ s.timers, deadline ≤ e.1

instance (deadline : Nat) (t : TaskId) : Decidable (s.Expires deadline t) :=
  inferInstanceAs (Decidable (_ ∧ _ ∧ _))

end Sched

/-- One step of the system. -/
def next (s : Sched) : Action → Option Sched
  | .call c => if s.pc s.current = .user ∧ c.allowed s.current = true then some (s.call c) else none
  | .resume cond => s.resume cond
  | .timer d t => if s.Expires d t then some ({ s with timers := s.timers.erase (d, t) }.timerCallback t) else none
  | .tick => some { s with now := s.now + 1 }

/-- The state `init_scheduler` leaves: the main task runs, `gc` is ready in the
    queue, and idle is ready out of it. -/
def init : Sched where
  state t := if t = mainTask then .running else .ready
  inWaitQueue _ := false
  inTimerList _ := false
  pc _ := .user
  current := mainTask
  ready := [gcTask]
  waitQueues _ := []
  timers := []
  now := 0
  nextId := 3

/-- The scheduler from `init_scheduler`, over every interleaving. -/
def schedSystem : LTS Sched Action := LTS.ofNext (· = init) next

end ArceOS.Task
