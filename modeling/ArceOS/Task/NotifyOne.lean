import ArceOS.Task.SchedInv

/-!
# What `notify_one` Delivers

`notify_one` pops the front of the queue and calls `unblock_task` on it, and reports
`true` whatever `unblock_task` did. A waiter of `wait_timeout` or `wait_timeout_until`
whose alarm has expired is ready but still in the queue until its `cancel_events`
runs; popping it moves no task to Ready (`notifyOneLocked_front_awake`), and
`wait_timeout_until` then leaves its loop on the elapsed deadline without evaluating its
condition. §2 gives a run where the notification is lost this way while another waiter
of the queue stays blocked.
-/

namespace ArceOS.Task

open ArceOS.Lib

variable {s : Sched} {q : QueueId} {t : TaskId} {rest : List TaskId}

/-! ## §1 The two cases of `notify_one_locked` -/

/-- The front waiter is blocked: it becomes ready and joins the ready queue. -/
theorem notifyOneLocked_front_blocked (hq : s.waitQueues q = t :: rest)
    (hb : s.state t = .blocked) :
    (s.notifyOneLocked q).1 = true ∧ (s.notifyOneLocked q).2.state t = .ready ∧
      (s.notifyOneLocked q).2.ready = s.ready ++ [t] ∧
      (s.notifyOneLocked q).2.waitQueues q = rest := by
  simp [Sched.notifyOneLocked, hq, Sched.unblockTask, hb]

/-- The front waiter is awake already: `notify_one` reports success, yet no task's state
    and nothing of the ready queue changes; the waiter only leaves the queue. -/
theorem notifyOneLocked_front_awake (hq : s.waitQueues q = t :: rest)
    (hb : s.state t ≠ .blocked) :
    (s.notifyOneLocked q).1 = true ∧ (s.notifyOneLocked q).2.state = s.state ∧
      (s.notifyOneLocked q).2.ready = s.ready ∧
      (s.notifyOneLocked q).2.waitQueues q = rest := by
  simp [Sched.notifyOneLocked, hq, Sched.unblockTask, hb]

/-- In a reachable state, the awake front waiter of a queue is a waiter whose alarm woke
    it: it stands in `wait_timeout` or `wait_timeout_until`, or at their `cancel_events`. -/
theorem awake_front_timed (h : Inv s) (hq : s.waitQueues q = t :: rest)
    (hb : s.state t ≠ .blocked) : (s.pc t).Awake s.now q :=
  h.queues.awake_wq (by simp [hq]) hb

/-! ## §2 A lost notification -/

/-- The wait queue of the run. -/
def lostQueue : QueueId := .named 0

/-- `main` spawns `B` (task 3) and `C` (task 4) and passes the CPU to `B`; `B` calls
    `wait_timeout_until(1, cond)` and blocks on `lostQueue`, then `C` calls `wait` on it
    and blocks behind `B`; time passes and `B`'s alarm expires. -/
def lostBeforeNotify : List Action :=
  [.call .spawn, .call .spawn, .call .yield, .call .yield,
    .call (.waitTimeoutUntil lostQueue 1), .resume false, .resume false,
    .call (.wait lostQueue), .tick, .timer 1 3]

/-- After `main`'s `notify_one`, `main` and `gc` yield; `B` runs on, finds its deadline
    passed and goes to `cancel_events`. -/
def lostToReturn : List Action := [.call .yield, .call .yield, .resume false, .resume false]

/-- **A notification lost to a timeout**: `main`'s `notify_one` finds `B` first in the
    queue and ready, so it reports `true`; `B` then returns `true` (timed out) from
    `wait_timeout_until` without evaluating its condition, and `C` stays blocked in the
    queue. -/
theorem notifyOne_lost_to_timeout :
    (LTS.exec next init lostBeforeNotify).map (fun s =>
        (s.current, (s.notifyOneLocked lostQueue).1, s.waitQueues lostQueue, s.state 3, s.state 4)) =
      some (mainTask, true, [3, 4], .ready, .blocked) ∧
    (LTS.exec next init (lostBeforeNotify ++ .call (.notifyOne lostQueue) :: lostToReturn)).map
        (fun s => (s.current, s.pc 3)) = some (3, .cancelTimer (some true)) ∧
    (LTS.exec next init (lostBeforeNotify ++ .call (.notifyOne lostQueue) :: lostToReturn ++
        [.resume false])).map (fun s => (s.pc 3, s.state 4, s.waitQueues lostQueue)) =
      some (.user, .blocked, [4]) := by
  decide

end ArceOS.Task
