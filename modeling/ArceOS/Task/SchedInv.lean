import ArceOS.Task.Sched

/-!
# Invariants of the Scheduler

The invariant `Inv` holds in every state `schedSystem` reaches. It has three parts:

- `ReadyInv`: the ready queue holds each ready task but idle exactly once and nothing
  else, no task but the current one runs, and idle never blocks;
- the current task runs;
- `QueueInv`: each task's `in_wait_queue` and `in_timer_list` flags say whether it is in
  a wait queue and whether it has a timer event; a task in a wait queue stands where a
  wait function blocks (`Pc.Parked`) while it is blocked, and where a woken waiter goes
  on (`Pc.Awake`) once a timer made it ready; a timer event belongs to a call that set
  an alarm, or to `sleep_until`.

Each operation of the run queue, the wait queues and the timers keeps the parts it
touches (§2 to §4), from which every step keeps `Inv` (§5). The scheduler's contract
follows in §6.
-/

namespace ArceOS.Task

open ArceOS.Lib

/-! ## §1 The invariant -/

/-- Where a task blocked in `q` stands: at the point each wait function goes on from
    when it runs again. -/
def Pc.Parked (q : QueueId) : Pc → Prop
  | .untilCheck q' | .timeoutResume q' | .tuLoop q' _ | .cancelWq q' none => q' = q
  | _ => False

/-- Where a task still in `q` stands once its timer made it ready, before its
    `cancel_events` takes it out. -/
def Pc.Awake (now : Nat) (q : QueueId) : Pc → Prop
  | .timeoutResume q' | .cancelWq q' (some _) => q' = q
  | .tuLoop q' d => q' = q ∧ d ≤ now
  | _ => False

theorem Pc.queue_of_parked {q : QueueId} : ∀ {p : Pc}, p.Parked q → p.queue? = some q
  | .untilCheck _, h | .timeoutResume _, h | .tuLoop _ _, h | .cancelWq _ none, h => by
    simp_all [Pc.Parked, Pc.queue?]

theorem Pc.queue_of_awake {now : Nat} {q : QueueId} : ∀ {p : Pc}, p.Awake now q → p.queue? = some q
  | .timeoutResume _, h | .cancelWq _ (some _), h => by simp_all [Pc.Awake, Pc.queue?]
  | .tuLoop _ _, h => by simp_all [Pc.Awake, Pc.queue?]

theorem Pc.Awake.mono {now now' : Nat} {q : QueueId} (hle : now ≤ now') :
    ∀ {p : Pc}, p.Awake now q → p.Awake now' q
  | .timeoutResume _, h | .cancelWq _ (some _), h => h
  | .tuLoop _ _, h => ⟨h.1, Nat.le_trans h.2 hle⟩

/-- The states, the current task and the ready queue, but for the current task's own
    state, which `resched` restores. -/
structure ReadyInv (s : Sched) : Prop where
  idle_lt : idle < s.nextId
  current_lt : s.current < s.nextId
  running_current : ∀ t, s.state t = .running → t = s.current
  ready_nodup : s.ready.Nodup
  mem_ready : ∀ t, t ∈ s.ready ↔ t < s.nextId ∧ t ≠ idle ∧ s.state t = .ready
  idle_awake : s.state idle = .running ∨ s.state idle = .ready

/-- The flags, the wait queues, the timer events and the points of the calls. -/
structure QueueInv (s : Sched) : Prop where
  wq_nodup : ∀ q, (s.waitQueues q).Nodup
  mem_wq : ∀ {q t}, t ∈ s.waitQueues q → t < s.nextId ∧ s.inWaitQueue t = true
  flag_wq : ∀ t, s.inWaitQueue t = true → ∃ q, t ∈ s.waitQueues q
  parked_wq : ∀ {q t}, t ∈ s.waitQueues q → s.state t = .blocked → (s.pc t).Parked q
  awake_wq : ∀ {q t}, t ∈ s.waitQueues q → s.state t ≠ .blocked → (s.pc t).Awake s.now q
  timers_nodup : (s.timers.map Prod.snd).Nodup
  mem_timers : ∀ {d t}, (d, t) ∈ s.timers → t < s.nextId ∧ s.inTimerList t = true
  flag_timers : ∀ t, s.inTimerList t = true → ∃ d, (d, t) ∈ s.timers
  timer_pc : ∀ t, s.inTimerList t = true →
    (s.pc t).timed = true ∨ (s.pc t = .user ∧ s.state t = .blocked)
  timer_deadline : ∀ {d t q d'}, (d, t) ∈ s.timers →
    s.pc t = .tuLoop q d' ∨ s.pc t = .tuCheck q d' → d = d'
  cancelTimer_flag : ∀ t r, s.pc t = .cancelTimer r → s.inWaitQueue t = false
  idle_pc : s.pc idle = .user

/-- The scheduler's invariant. -/
structure Inv (s : Sched) : Prop where
  ready : ReadyInv s
  current_running : s.state s.current = .running
  queues : QueueInv s

variable {s : Sched} {t : TaskId} {q : QueueId}

/-! ### What the invariant gives -/

namespace QueueInv

theorem queue_of_mem (h : QueueInv s) (hm : t ∈ s.waitQueues q) : (s.pc t).queue? = some q := by
  by_cases hb : s.state t = .blocked
  · exact Pc.queue_of_parked (h.parked_wq hm hb)
  · exact Pc.queue_of_awake (h.awake_wq hm hb)

/-- A task is in one wait queue at most. -/
theorem queue_unique (h : QueueInv s) {q' : QueueId} (hm : t ∈ s.waitQueues q)
    (hm' : t ∈ s.waitQueues q') : q = q' := by
  have := (h.queue_of_mem hm).symm.trans (h.queue_of_mem hm')
  exact Option.some.inj this

theorem not_mem_of_queue_none (h : QueueInv s) (hp : (s.pc t).queue? = none) :
    t ∉ s.waitQueues q := fun hm => by simp [h.queue_of_mem hm] at hp

theorem not_mem_of_flag (h : QueueInv s) (hf : s.inWaitQueue t = false) : t ∉ s.waitQueues q :=
  fun hm => by simp [(h.mem_wq hm).2] at hf

theorem flag_of_not_mem (h : QueueInv s) (hnot : ∀ q, t ∉ s.waitQueues q) :
    s.inWaitQueue t = false := by
  by_contra hf
  obtain ⟨q, hq⟩ := h.flag_wq t (by simpa using hf)
  exact hnot q hq

/-- A task that is not blocked is in no wait queue, unless a timer woke it there. -/
theorem not_mem_of_not_awake (h : QueueInv s) (hb : s.state t ≠ .blocked)
    (ha : ∀ q, ¬ (s.pc t).Awake s.now q) : t ∉ s.waitQueues q :=
  fun hm => ha q (h.awake_wq hm hb)

theorem not_mem_timers_of_flag (h : QueueInv s) (hf : s.inTimerList t = false) {d : Nat} :
    (d, t) ∉ s.timers := fun hm => by simp [(h.mem_timers hm).2] at hf

/-- A task that runs and set no alarm has no timer event. -/
theorem timerFlag_of_untimed (h : QueueInv s) (hb : s.state t ≠ .blocked)
    (hp : (s.pc t).timed = false) : s.inTimerList t = false := by
  by_contra hf
  rcases h.timer_pc t (by simpa using hf) with ht | ⟨-, hbl⟩
  · simp [hp] at ht
  · exact hb hbl

/-- A task in a wait queue with a timer event is at a point that set an alarm. -/
theorem timed_of_mem (h : QueueInv s) (hm : t ∈ s.waitQueues q) (hf : s.inTimerList t = true) :
    (s.pc t).timed = true := by
  rcases h.timer_pc t hf with ht | ⟨hu, -⟩
  · exact ht
  · have := h.queue_of_mem hm
    simp [hu, Pc.queue?] at this

end QueueInv

/-- A parked task whose alarm has passed is awake. -/
theorem Pc.awake_of_parked {now : Nat} {q : QueueId} : ∀ {p : Pc}, p.Parked q → p.timed = true →
    (∀ q' d, p = .tuLoop q' d → d ≤ now) → p.Awake now q
  | .timeoutResume _, hp, _, _ => hp
  | .tuLoop _ d, hp, _, hd => ⟨hp, hd _ d rfl⟩
  | .untilCheck _, _, ht, _ | .cancelWq _ none, _, ht, _ => by simp [Pc.timed] at ht
  | .user, hp, _, _ | .timeoutBlock _, hp, _, _ | .tuCheck _ _, hp, _, _
  | .cancelWq _ (some _), hp, _, _ | .cancelTimer _, hp, _, _ | .notifyAll _, hp, _, _ => False.elim hp

/-! ## §2 Frames -/

theorem ReadyInv.congr {s' : Sched} (h : ReadyInv s) (hst : s'.state = s.state)
    (hc : s'.current = s.current) (hr : s'.ready = s.ready) (hn : s'.nextId = s.nextId) :
    ReadyInv s' := by
  obtain ⟨h1, h2, h3, h4, h5, h6⟩ := h
  refine ⟨?_, ?_, ?_, ?_, ?_, ?_⟩ <;> simp only [hst, hc, hr, hn] <;> assumption

/-- `QueueInv` reads the states only through whether a task is blocked, and time may
    pass. -/
theorem QueueInv.congr {s' : Sched} (h : QueueInv s) (hw : s'.waitQueues = s.waitQueues)
    (hf : s'.inWaitQueue = s.inWaitQueue) (hti : s'.inTimerList = s.inTimerList)
    (hp : s'.pc = s.pc) (hts : s'.timers = s.timers) (hn : s'.nextId = s.nextId)
    (hnow : s.now ≤ s'.now) (hb : ∀ t, s'.state t = .blocked ↔ s.state t = .blocked) :
    QueueInv s' := by
  obtain ⟨h1, h2, h3, h4, h5, h6, h7, h8, h9, h10, h11, h12⟩ := h
  refine ⟨?_, ?_, ?_, ?_, ?_, ?_, ?_, ?_, ?_, ?_, ?_, ?_⟩ <;>
    simp only [hw, hf, hti, hp, hts, hn, hb, ne_eq] <;> try assumption
  intro q t hm hnb
  exact (h5 hm hnb).mono hnow

theorem QueueInv.withReady (h : QueueInv s) (l : List TaskId) : QueueInv { s with ready := l } :=
  h.congr rfl rfl rfl rfl rfl rfl (Nat.le_refl _) fun _ => Iff.rfl

/-! ## §3 The run queue -/

namespace ReadyInv

/-- After `put_prev_task`, no task runs. -/
theorem putPrev (h : ReadyInv s) : ReadyInv s.putPrev ∧ ∀ t, s.putPrev.state t ≠ .running := by
  have hidle : s.state s.current = .running → s.current ∉ s.ready := fun hr hm => by
    simp [(h.mem_ready _).1 hm |>.2.2] at hr
  dsimp only [Sched.putPrev]
  split_ifs with hrun hc
  · -- a running task other than idle goes to the back of the queue
    refine ⟨⟨h.idle_lt, h.current_lt, ?_, ?_, ?_, ?_⟩, ?_⟩
    · intro t ht
      by_cases htc : t = s.current <;> simp_all [h.running_current t]
    · exact h.ready_nodup.append (List.nodup_singleton _) (by simpa using hidle hrun)
    · intro t
      by_cases htc : t = s.current
      · subst htc; simp [h.current_lt, hc]
      · simp [htc, h.mem_ready t]
    · simp [Ne.symm hc, h.idle_awake]
    · intro t ht
      by_cases htc : t = s.current <;> simp_all [h.running_current t]
  · -- idle is ready out of the queue
    have hci : s.current = idle := by simpa using hc
    refine ⟨⟨h.idle_lt, h.current_lt, ?_, h.ready_nodup, ?_, ?_⟩, ?_⟩
    · intro t ht
      by_cases htc : t = s.current <;> simp_all [h.running_current t]
    · intro t
      by_cases htc : t = s.current
      · subst htc; simp [hci, h.mem_ready idle]
      · simp [htc, h.mem_ready t]
    · simp [hci]
    · intro t ht
      by_cases htc : t = s.current <;> simp_all [h.running_current t]
  · exact ⟨h, fun t ht => hrun (h.running_current t ht ▸ ht)⟩

/-- `pick_next_task` and `switch_to` leave the next task running. -/
theorem switchToNext (h : ReadyInv s) (hq : ∀ t, s.state t ≠ .running) :
    ReadyInv s.switchToNext ∧ s.switchToNext.state s.switchToNext.current = .running := by
  unfold Sched.switchToNext
  split
  case h_1 hr =>
    -- the queue is empty: idle runs
    refine ⟨⟨h.idle_lt, h.idle_lt, ?_, by simp [hr], ?_, by simp⟩, by simp⟩
    · intro t ht
      by_contra htc
      exact hq t (by simpa [htc] using ht)
    · intro t
      have := h.mem_ready t
      by_cases hti : t = idle <;> simp_all
  case h_2 n rest hr =>
    -- the front of the queue runs
    have hn := (h.mem_ready n).1 (by simp [hr])
    have hnd : (n :: rest).Nodup := hr ▸ h.ready_nodup
    refine ⟨⟨h.idle_lt, hn.1, ?_, hnd.of_cons, ?_, ?_⟩, by simp⟩
    · intro t ht
      by_contra htc
      exact hq t (by simpa [htc] using ht)
    · intro t
      by_cases htn : t = n
      · subst htn; simp [(List.nodup_cons.1 hnd).1]
      · have := h.mem_ready t
        simp_all
    · have hi : s.state idle = .ready := (h.idle_awake.resolve_left (hq idle))
      simp [Ne.symm hn.2.1, hi]

/-- `put_prev_task` changes only a running task, to ready. -/
theorem putPrev_stopped {st : TaskState} (hr : st ≠ .running) (hd : st ≠ .ready) (u : TaskId) :
    s.putPrev.state u = st ↔ s.state u = st := by
  dsimp only [Sched.putPrev]
  split_ifs with hrun <;> by_cases hu : u = s.current <;> simp_all [Ne.symm hr, Ne.symm hd]

/-- `switch_to` changes only the next task, ready, to running. -/
theorem switchToNext_stopped (h : ReadyInv s) (hq : ∀ t, s.state t ≠ .running) {st : TaskState}
    (hr : st ≠ .running) (hd : st ≠ .ready) (u : TaskId) :
    s.switchToNext.state u = st ↔ s.state u = st := by
  unfold Sched.switchToNext
  split
  case h_1 =>
    have hi : s.state idle = .ready := (h.idle_awake.resolve_left (hq idle))
    by_cases hu : u = idle <;> simp_all [Ne.symm hr, Ne.symm hd]
  case h_2 n rest hr' =>
    have hn := (h.mem_ready n).1 (by simp [hr'])
    by_cases hu : u = n <;> simp_all [Ne.symm hr, Ne.symm hd]

theorem putPrev_blocked (u : TaskId) : s.putPrev.state u = .blocked ↔ s.state u = .blocked :=
  putPrev_stopped (by simp) (by simp) u

theorem switchToNext_blocked (h : ReadyInv s) (hq : ∀ t, s.state t ≠ .running) (u : TaskId) :
    s.switchToNext.state u = .blocked ↔ s.state u = .blocked :=
  h.switchToNext_stopped hq (by simp) (by simp) u

/-- **`resched`** leaves the next task running. -/
theorem resched (h : ReadyInv s) : ReadyInv s.resched ∧ s.resched.state s.resched.current = .running :=
  (h.putPrev.1.switchToNext h.putPrev.2)

theorem resched_blocked (h : ReadyInv s) (u : TaskId) :
    s.resched.state u = .blocked ↔ s.state u = .blocked :=
  (h.putPrev.1.switchToNext_blocked h.putPrev.2 u).trans (putPrev_blocked u)

/-- `resched` leaves every task that is neither running nor ready as it is: those
    blocked stay blocked and those exited stay exited. -/
theorem resched_stopped (h : ReadyInv s) {st : TaskState} (hr : st ≠ .running) (hd : st ≠ .ready)
    (u : TaskId) : s.resched.state u = st ↔ s.state u = st :=
  (h.putPrev.1.switchToNext_stopped h.putPrev.2 hr hd u).trans (putPrev_stopped hr hd u)

/-- `unblock_task` of a task created already. -/
theorem unblockTask (h : ReadyInv s) (ht : t < s.nextId) : ReadyInv (s.unblockTask t) := by
  unfold Sched.unblockTask
  split_ifs with hb
  · have hti : t ≠ idle := fun e => by rcases h.idle_awake with hi | hi <;> simp_all
    have hnm : t ∉ s.ready := fun hm => by simp [(h.mem_ready t).1 hm |>.2.2] at hb
    refine ⟨h.idle_lt, h.current_lt, ?_, h.ready_nodup.append (List.nodup_singleton _) (by simpa using hnm), ?_, ?_⟩
    · intro u hu
      by_cases hut : u = t
      · simp [hut] at hu
      · exact h.running_current u (by simpa [hut] using hu)
    · intro u
      by_cases hut : u = t
      · subst hut; simp [ht, hti]
      · simp [hut, h.mem_ready u]
    · simp [Ne.symm hti, h.idle_awake]
  · exact h

end ReadyInv

/-! ## §4 The wait queues and the timers -/

namespace QueueInv

/-- A task's state changes; in a wait queue it must stand where the new state lets it. -/
theorem setState (h : QueueInv s) {st : TaskState}
    (hwq : ∀ q, t ∈ s.waitQueues q →
      (st = .blocked → (s.pc t).Parked q) ∧ (st ≠ .blocked → (s.pc t).Awake s.now q))
    (hti : s.inTimerList t = true → (s.pc t).timed = true ∨ (s.pc t = .user ∧ st = .blocked)) :
    QueueInv (s.setState t st) := by
  obtain ⟨h1, h2, h3, h4, h5, h6, h7, h8, h9, h10, h11, h12⟩ := h
  refine ⟨h1, h2, h3, ?_, ?_, h6, h7, h8, ?_, h10, h11, h12⟩
  · intro q u hm hb
    by_cases hu : u = t
    · subst hu; exact (hwq q hm).1 (by simpa using hb)
    · exact h4 hm (by simpa [hu] using hb)
  · intro q u hm hb
    by_cases hu : u = t
    · subst hu; exact (hwq q hm).2 (by simpa using hb)
    · exact h5 hm (by simpa [hu] using hb)
  · intro u hu
    by_cases hut : u = t
    · subst hut; simpa using hti hu
    · simpa [hut] using h9 u hu

/-- A task's point moves; the new point must agree with its queue and its timer. -/
theorem setPc (h : QueueInv s) {p : Pc}
    (hwq : ∀ q, t ∈ s.waitQueues q →
      (s.state t = .blocked → p.Parked q) ∧ (s.state t ≠ .blocked → p.Awake s.now q))
    (hti : s.inTimerList t = true → p.timed = true ∨ (p = .user ∧ s.state t = .blocked))
    (hd : ∀ {d q d'}, (d, t) ∈ s.timers → p = .tuLoop q d' ∨ p = .tuCheck q d' → d = d')
    (hct : ∀ r, p = .cancelTimer r → s.inWaitQueue t = false) (hidle : t = idle → p = .user) :
    QueueInv (s.setPc t p) := by
  obtain ⟨h1, h2, h3, h4, h5, h6, h7, h8, h9, h10, h11, h12⟩ := h
  refine ⟨h1, h2, h3, ?_, ?_, h6, h7, h8, ?_, ?_, ?_, ?_⟩
  · intro q u hm hb
    by_cases hu : u = t
    · subst hu; simpa using (hwq q hm).1 hb
    · simpa [hu] using h4 hm hb
  · intro q u hm hb
    by_cases hu : u = t
    · subst hu; simpa using (hwq q hm).2 hb
    · simpa [hu] using h5 hm hb
  · intro u hu
    by_cases hut : u = t
    · subst hut; simpa using hti hu
    · simpa [hut] using h9 u hu
  · intro d u q d' hm hp
    by_cases hut : u = t
    · subst hut; exact hd hm (by simpa using hp)
    · exact h10 hm (by simpa [hut] using hp)
  · intro u r hp
    by_cases hut : u = t
    · subst hut; exact hct r (by simpa using hp)
    · exact h11 u r (by simpa [hut] using hp)
  · by_cases hti : idle = t
    · simp [← hti, hidle hti.symm]
    · simp [hti, h12]

/-- The point of a task in no wait queue moves. -/
theorem setPc_of_not_mem (h : QueueInv s) {p : Pc} (hnot : ∀ q, t ∉ s.waitQueues q)
    (hti : s.inTimerList t = true → p.timed = true ∨ (p = .user ∧ s.state t = .blocked))
    (hd : ∀ {d q d'}, (d, t) ∈ s.timers → p = .tuLoop q d' ∨ p = .tuCheck q d' → d = d')
    (hidle : t = idle → p = .user) : QueueInv (s.setPc t p) :=
  h.setPc (fun q hm => absurd hm (hnot q)) hti hd (fun _ _ => h.flag_of_not_mem hnot) hidle

/-- `unblock_task` of a task whose timer woke it, or that left its wait queue. -/
theorem unblockTask (h : QueueInv s)
    (hwq : s.state t = .blocked → ∀ q, t ∈ s.waitQueues q → (s.pc t).Awake s.now q)
    (hti : s.state t = .blocked → s.inTimerList t = true → (s.pc t).timed = true) :
    QueueInv (s.unblockTask t) := by
  unfold Sched.unblockTask
  split_ifs with hb
  · apply QueueInv.withReady
    exact h.setState (fun q hm => ⟨by simp, fun _ => hwq hb q hm⟩) fun hf => .inl (hti hb hf)
  · exact h

/-- Task `t` leaves `q`, which keeps its other tasks, and is unflagged. -/
theorem dequeue (h : QueueInv s) {l : List TaskId} (ht : t ∈ s.waitQueues q)
    (hsub : ∀ u ∈ l, u ∈ s.waitQueues q ∧ u ≠ t) (hkeep : ∀ u ∈ s.waitQueues q, u ≠ t → u ∈ l)
    (hnd : l.Nodup) : QueueInv ((s.setWaitQueue q l).setInWaitQueue t false) := by
  -- every task of the new queues was in the old ones, and is not `t`
  have hm : ∀ {r u}, u ∈ ((s.setWaitQueue q l).setInWaitQueue t false).waitQueues r →
      u ∈ s.waitQueues r ∧ u ≠ t := by
    intro r u hu
    by_cases hr : r = q
    · subst hr; simpa using hsub u (by simpa using hu)
    · have hu' : u ∈ s.waitQueues r := by simpa [hr] using hu
      refine ⟨hu', fun hut => hr ?_⟩
      subst hut
      exact h.queue_unique hu' ht
  obtain ⟨h1, h2, h3, h4, h5, h6, h7, h8, h9, h10, h11, h12⟩ := h
  refine ⟨?_, ?_, ?_, ?_, ?_, h6, h7, h8, h9, h10, ?_, h12⟩
  · intro r
    by_cases hr : r = q
    · simpa [hr] using hnd
    · simpa [hr] using h1 r
  · intro r u hu
    obtain ⟨hu', hut⟩ := hm hu
    simpa [hut] using h2 hu'
  · intro u hu
    have hut : u ≠ t := by rintro rfl; simp at hu
    obtain ⟨r, hr⟩ := h3 u (by simpa [hut] using hu)
    refine ⟨r, ?_⟩
    by_cases hrq : r = q
    · subst hrq; simpa using hkeep u hr hut
    · simpa [hrq] using hr
  · intro r u hu hb
    exact h4 (hm hu).1 hb
  · intro r u hu hb
    exact h5 (hm hu).1 hb
  · intro u r hp
    by_cases hut : u = t
    · simp [hut]
    · simpa [hut] using h11 u r hp

/-- A blocked task in no wait queue joins the back of `q`, flagged, where it is parked. -/
theorem enqueue (h : QueueInv s) (hnot : ∀ q, t ∉ s.waitQueues q) (ht : t < s.nextId)
    (hb : s.state t = .blocked) (hp : (s.pc t).Parked q) :
    QueueInv ((s.setInWaitQueue t true).setWaitQueue q (s.waitQueues q ++ [t])) := by
  -- a task of the new queues is `t` in `q`, or was in the old ones
  have hm : ∀ {r u}, u ∈ ((s.setInWaitQueue t true).setWaitQueue q (s.waitQueues q ++ [t])).waitQueues r →
      (u = t ∧ r = q) ∨ (u ∈ s.waitQueues r ∧ u ≠ t) := by
    intro r u hu
    by_cases hr : r = q
    · subst hr
      rcases (by simpa using hu : u ∈ s.waitQueues r ∨ u = t) with hu' | hut
      · exact .inr ⟨hu', by rintro rfl; exact hnot r hu'⟩
      · exact .inl ⟨hut, rfl⟩
    · have hu' : u ∈ s.waitQueues r := by simpa [hr] using hu
      exact .inr ⟨hu', by rintro rfl; exact hnot r hu'⟩
  obtain ⟨h1, h2, h3, h4, h5, h6, h7, h8, h9, h10, h11, h12⟩ := h
  refine ⟨?_, ?_, ?_, ?_, ?_, h6, h7, h8, h9, h10, ?_, h12⟩
  · intro r
    by_cases hr : r = q
    · subst hr
      simpa using (h1 r).append (List.nodup_singleton t) (by simpa using hnot r)
    · simpa [hr] using h1 r
  · intro r u hu
    rcases hm hu with ⟨rfl, -⟩ | ⟨hu', hut⟩
    · simp [ht]
    · simpa [hut] using h2 hu'
  · intro u hu
    by_cases hut : u = t
    · exact ⟨q, by simp [hut]⟩
    · obtain ⟨r, hr⟩ := h3 u (by simpa [hut] using hu)
      refine ⟨r, ?_⟩
      by_cases hrq : r = q
      · subst hrq; simp [hr]
      · simpa [hrq] using hr
  · intro r u hu hbu
    rcases hm hu with ⟨rfl, rfl⟩ | ⟨hu', -⟩
    · exact hp
    · exact h4 hu' hbu
  · intro r u hu hbu
    rcases hm hu with ⟨rfl, -⟩ | ⟨hu', -⟩
    · exact absurd hb hbu
    · exact h5 hu' hbu
  · intro u r hpu
    by_cases hut : u = t
    · subst hut
      simp only [Sched.setWaitQueue_pc, Sched.setInWaitQueue_pc] at hpu
      rw [hpu] at hp
      exact hp.elim
    · simpa [hut] using h11 u r hpu

/-- `set_alarm_wakeup` for a task with no event yet, at a point that set an alarm. -/
theorem setAlarmWakeup (h : QueueInv s) {d : Nat} (hf : s.inTimerList t = false)
    (ht : t < s.nextId) (hp : (s.pc t).timed = true ∨ (s.pc t = .user ∧ s.state t = .blocked))
    (hd : ∀ q d', s.pc t = .tuLoop q d' ∨ s.pc t = .tuCheck q d' → d = d') :
    QueueInv (s.setAlarmWakeup d t) := by
  have hnot : ∀ d', (d', t) ∉ s.timers := fun d' => h.not_mem_timers_of_flag hf
  obtain ⟨h1, h2, h3, h4, h5, h6, h7, h8, h9, h10, h11, h12⟩ := h
  refine ⟨h1, h2, h3, h4, h5, ?_, ?_, ?_, ?_, ?_, h11, h12⟩
  · show ((s.timers ++ [(d, t)]).map Prod.snd).Nodup
    rw [List.map_append, List.nodup_append]
    refine ⟨h6, by simp, ?_⟩
    intro a ha b hb hab
    simp only [List.map_cons, List.map_nil, List.mem_singleton] at hb
    obtain ⟨⟨d', u⟩, he, hu⟩ := List.mem_map.1 ha
    simp only at hu
    rw [hu, hab, hb] at he
    exact hnot d' he
  · intro d' u hu
    simp only [Sched.setAlarmWakeup, List.mem_append, List.mem_singleton, Prod.mk.injEq] at hu
    rcases hu with hu | ⟨-, rfl⟩
    · by_cases hut : u = t
      · exact absurd (hut ▸ hu) (hnot d')
      · simpa [Sched.setAlarmWakeup, hut] using h7 hu
    · simp [Sched.setAlarmWakeup, ht]
  · intro u hu
    by_cases hut : u = t
    · exact ⟨d, by simp [Sched.setAlarmWakeup, hut]⟩
    · obtain ⟨d', hd'⟩ := h8 u (by simpa [Sched.setAlarmWakeup, hut] using hu)
      exact ⟨d', by simp [Sched.setAlarmWakeup, hd']⟩
  · intro u hu
    by_cases hut : u = t
    · subst hut; exact hp
    · exact h9 u (by simpa [Sched.setAlarmWakeup, hut] using hu)
  · intro d' u q d'' hu hpu
    simp only [Sched.setAlarmWakeup, List.mem_append, List.mem_singleton, Prod.mk.injEq] at hu
    rcases hu with hu | ⟨rfl, rfl⟩
    · exact h10 hu hpu
    · exact hd q d'' hpu

/-- `cancel_alarm`. -/
theorem cancelAlarm (h : QueueInv s) : QueueInv (s.cancelAlarm t) := by
  obtain ⟨h1, h2, h3, h4, h5, h6, h7, h8, h9, h10, h11, h12⟩ := h
  refine ⟨h1, h2, h3, h4, h5, ?_, ?_, ?_, ?_, ?_, h11, h12⟩
  · exact (List.filter_sublist.map Prod.snd).nodup h6
  · intro d u hu
    simp only [Sched.cancelAlarm, List.mem_filter, bne_iff_ne, ne_eq] at hu
    simpa [Sched.cancelAlarm, hu.2] using h7 hu.1
  · intro u hu
    have hut : u ≠ t := by rintro rfl; simp [Sched.cancelAlarm] at hu
    obtain ⟨d, hd⟩ := h8 u (by simpa [Sched.cancelAlarm, hut] using hu)
    exact ⟨d, by simp [Sched.cancelAlarm, hd, hut]⟩
  · intro u hu
    have hut : u ≠ t := by rintro rfl; simp [Sched.cancelAlarm] at hu
    exact h9 u (by simpa [Sched.cancelAlarm, hut] using hu)
  · intro d u q d' hu hp
    exact h10 (List.mem_of_mem_filter hu) hp

/-- The timer half of `cancel_events`. -/
theorem cancelTimer (h : QueueInv s) : QueueInv (s.cancelTimer t) := by
  unfold Sched.cancelTimer
  split_ifs
  · exact h.cancelAlarm
  · exact h

/-- The wait-queue half of `cancel_events`, for a task whose point waits on `q`. -/
theorem cancelWq (h : QueueInv s) (hq : (s.pc t).queue? = some q) : QueueInv (s.cancelWq t q) := by
  unfold Sched.cancelWq
  split_ifs with hf
  · obtain ⟨r, hr⟩ := h.flag_wq t hf
    have hrq : r = q := Option.some.inj ((h.queue_of_mem hr).symm.trans hq)
    subst hrq
    refine h.dequeue hr (fun u hu => ?_) (fun u hu hut => ?_) ((h.wq_nodup r).filter _)
    · simp only [List.mem_filter, bne_iff_ne, ne_eq] at hu
      exact ⟨hu.1, hu.2⟩
    · simp [hu, hut]
  · exact h

/-- A task has one timer event at most, so the expired one was its last. -/
theorem not_mem_erase_timers (h : QueueInv s) {d d' : Nat} (hm : (d, t) ∈ s.timers) :
    (d', t) ∉ s.timers.erase (d, t) := by
  intro hm'
  have heq : (d', t) = (d, t) := List.inj_on_of_nodup_map h.timers_nodup (List.mem_of_mem_erase hm') hm rfl
  rw [heq] at hm'
  exact (h.timers_nodup.of_map _).not_mem_erase hm'

/-- `check_events` takes the expired event out and its callback unflags the task. -/
theorem expire (h : QueueInv s) {d : Nat} (hm : (d, t) ∈ s.timers) :
    QueueInv ({ s with timers := s.timers.erase (d, t) }.setInTimerList t false) := by
  have hnot : ∀ d', (d', t) ∉ s.timers.erase (d, t) := fun d' => h.not_mem_erase_timers hm
  obtain ⟨h1, h2, h3, h4, h5, h6, h7, h8, h9, h10, h11, h12⟩ := h
  refine ⟨h1, h2, h3, h4, h5, ?_, ?_, ?_, ?_, ?_, h11, h12⟩
  · exact (List.erase_sublist.map _).nodup h6
  · intro d' u hu
    have hut : u ≠ t := by rintro rfl; exact hnot d' hu
    simpa [hut] using h7 (List.mem_of_mem_erase hu)
  · intro u hu
    have hut : u ≠ t := by rintro rfl; simp at hu
    obtain ⟨d', hd'⟩ := h8 u (by simpa [hut] using hu)
    refine ⟨d', ?_⟩
    show (d', u) ∈ s.timers.erase (d, t)
    exact (List.mem_erase_of_ne (by simp [hut])).2 hd'
  · intro u hu
    have hut : u ≠ t := by rintro rfl; simp at hu
    exact h9 u (by simpa [hut] using hu)
  · intro d' u q d'' hu hp
    exact h10 (List.mem_of_mem_erase hu) hp

end QueueInv

/-- `notify_one_locked`. -/
theorem notifyOneLocked_inv (hr : ReadyInv s) (h : QueueInv s) :
    ReadyInv (s.notifyOneLocked q).2 ∧ QueueInv (s.notifyOneLocked q).2 := by
  unfold Sched.notifyOneLocked
  split
  case h_1 => exact ⟨hr, h⟩
  case h_2 t rest hq =>
    have ht : t ∈ s.waitQueues q := by simp [hq]
    have hnd : (t :: rest).Nodup := hq ▸ h.wq_nodup q
    have h2 : QueueInv ((s.setWaitQueue q rest).setInWaitQueue t false) := by
      refine h.dequeue ht (fun u hu => ⟨?_, ?_⟩) (fun u hu hut => ?_) hnd.of_cons
      · rw [hq]; exact List.mem_cons_of_mem _ hu
      · rintro rfl; exact (List.nodup_cons.1 hnd).1 hu
      · rw [hq] at hu; exact (List.mem_cons.1 hu).resolve_left hut
    -- the task left every queue: unblocking it keeps the invariant
    have hnot : ∀ r, t ∉ ((s.setWaitQueue q rest).setInWaitQueue t false).waitQueues r :=
      fun r => h2.not_mem_of_flag (by simp)
    have hr2 : ReadyInv ((s.setWaitQueue q rest).setInWaitQueue t false) := hr.congr rfl rfl rfl rfl
    exact ⟨hr2.unblockTask (h.mem_wq ht).1,
      h2.unblockTask (fun _ r hm => absurd hm (hnot r)) (fun _ hf => h.timed_of_mem ht hf)⟩

/-- `notify_all_locked`: `notify_one_locked` as many times as the queue has tasks. -/
theorem notifyAllLocked_inv (hr : ReadyInv s) (h : QueueInv s) :
    ReadyInv (s.notifyAllLocked q) ∧ QueueInv (s.notifyAllLocked q) := by
  unfold Sched.notifyAllLocked
  exact Function.Iterate.rec (fun s => ReadyInv s ∧ QueueInv s) ⟨hr, h⟩
    (fun _ hs => notifyOneLocked_inv hs.1 hs.2) _

/-- `WaitQueue::notify_task`. -/
theorem notifyTask_inv (hr : ReadyInv s) (h : QueueInv s) :
    ReadyInv (s.notifyTask q t).2 ∧ QueueInv (s.notifyTask q t).2 := by
  unfold Sched.notifyTask
  split_ifs with ht
  · have hnd := h.wq_nodup q
    have h2 : QueueInv ((s.setWaitQueue q ((s.waitQueues q).erase t)).setInWaitQueue t false) := by
      refine h.dequeue ht (fun u hu => ?_) (fun u hu hut => ?_) (hnd.erase t)
      · exact ⟨List.mem_of_mem_erase hu, ((hnd.mem_erase_iff).1 hu).1⟩
      · exact (hnd.mem_erase_iff).2 ⟨hut, hu⟩
    have hnot : ∀ r, t ∉ ((s.setWaitQueue q ((s.waitQueues q).erase t)).setInWaitQueue t false).waitQueues r :=
      fun r => h2.not_mem_of_flag (by simp)
    have hr2 : ReadyInv ((s.setWaitQueue q ((s.waitQueues q).erase t)).setInWaitQueue t false) :=
      hr.congr rfl rfl rfl rfl
    exact ⟨hr2.unblockTask (h.mem_wq ht).1,
      h2.unblockTask (fun _ r hm => absurd hm (hnot r)) (fun _ hf => h.timed_of_mem ht hf)⟩
  · exact ⟨hr, h⟩

/-- The current task, running, stops: it blocks or exits. -/
theorem ReadyInv.stop (h : ReadyInv s) (hc : s.current ≠ idle) (hrun : s.state s.current = .running)
    {st : TaskState} (hst : st = .blocked ∨ st = .exited) : ReadyInv (s.setState s.current st) := by
  have hnr : st ≠ .ready := by rcases hst with rfl | rfl <;> simp
  refine ⟨h.idle_lt, h.current_lt, ?_, h.ready_nodup, ?_, ?_⟩
  · intro u hu
    by_cases huc : u = s.current
    · exact huc
    · exact h.running_current u (by simpa [huc] using hu)
  · intro u
    by_cases huc : u = s.current
    · subst huc
      have hnm : s.current ∉ s.ready := fun hm => by simp [((h.mem_ready _).1 hm).2.2] at hrun
      simp [hnm, hnr]
    · simp [huc, h.mem_ready u]
  · simp [Ne.symm hc, h.idle_awake]

theorem QueueInv.resched (hr : ReadyInv s) (h : QueueInv s) : QueueInv s.resched :=
  h.congr (by simp [Sched.resched]) (by simp [Sched.resched]) (by simp [Sched.resched])
    (by simp [Sched.resched]) (by simp [Sched.resched]) (by simp [Sched.resched])
    (by simp [Sched.resched]) (hr.resched_blocked)

/-- **`resched`** keeps the invariant of a state whose current task stopped or yields. -/
theorem Inv.of_resched (hr : ReadyInv s) (h : QueueInv s) : Inv s.resched :=
  ⟨hr.resched.1, hr.resched.2, h.resched hr⟩

/-! ## §5 Every step keeps the invariant -/

namespace Inv

variable {p : Pc}

/-- An operation that keeps the states, the current task and the ready queue keeps the
    invariant when it keeps `QueueInv`. -/
theorem of_queueInv {s' : Sched} (h : Inv s) (hst : s'.state = s.state) (hc : s'.current = s.current)
    (hr : s'.ready = s.ready) (hn : s'.nextId = s.nextId) (hq : QueueInv s') : Inv s' :=
  ⟨h.ready.congr hst hc hr hn, by rw [hst, hc]; exact h.current_running, hq⟩

/-- The current task is not blocked. -/
theorem current_not_blocked (h : Inv s) : s.state s.current ≠ .blocked := by
  simp [h.current_running]

/-- A current task away from its own code is not idle. -/
theorem current_ne_idle (h : Inv s) (hp : s.pc s.current ≠ .user) : s.current ≠ idle :=
  fun hc => hp (hc ▸ h.queues.idle_pc)

/-- The current task, in no wait queue and with no timer event, moves to a point. -/
theorem setPc_free (h : Inv s) (hnot : ∀ q, s.current ∉ s.waitQueues q)
    (hf : s.inTimerList s.current = false) (hidle : s.current = idle → p = .user) :
    Inv (s.setPc s.current p) :=
  h.of_queueInv rfl rfl rfl rfl <| h.queues.setPc_of_not_mem hnot (by simp [hf])
    (fun hm => absurd hm (h.queues.not_mem_timers_of_flag hf)) hidle

/-- `block_current` into `q`, from the point where the call parks. -/
theorem blockCurrent (h : Inv s) (hp : (s.pc s.current).Parked q)
    (hnot : ∀ q, s.current ∉ s.waitQueues q) : Inv (s.blockCurrent q) := by
  have hc : s.current ≠ idle := h.current_ne_idle fun hu => by rw [hu] at hp; exact hp
  -- the current task stops, with a timer event only at a point that set an alarm
  have hr1 := h.ready.stop hc h.current_running (.inl rfl)
  have hq1 : QueueInv (s.setState s.current .blocked) :=
    h.queues.setState (fun q hm => absurd hm (hnot q)) fun hf =>
      .inl ((h.queues.timer_pc _ hf).resolve_right fun hu => h.current_not_blocked hu.2)
  -- then it joins the back of `q`
  have hq2 := (hq1.enqueue hnot h.ready.current_lt (by simp) hp (q := q))
  exact Inv.of_resched (hr1.congr rfl rfl rfl rfl) hq2

/-- `spawn_task`: the new task is in no queue and has no event. -/
theorem spawnTask (h : Inv s) : Inv s.spawnTask := by
  obtain ⟨hr, hrun, hq⟩ := h
  have hidle : idle ≠ s.nextId := Nat.ne_of_lt hr.idle_lt
  have hcur : s.current ≠ s.nextId := Nat.ne_of_lt hr.current_lt
  have hnm : s.nextId ∉ s.ready := fun hm => Nat.lt_irrefl _ ((hr.mem_ready _).1 hm).1
  dsimp only [Sched.spawnTask]
  refine ⟨⟨?_, ?_, ?_, ?_, ?_, ?_⟩, ?_, ⟨hq.wq_nodup, ?_, ?_, ?_, ?_, hq.timers_nodup, ?_, ?_, ?_, ?_, ?_, ?_⟩⟩
  -- the ready queue and the states
  · simp only; exact Nat.lt_succ_of_lt hr.idle_lt
  · simp only; exact Nat.lt_succ_of_lt hr.current_lt
  · intro u hu
    by_cases hun : u = s.nextId
    · simp [hun] at hu
    · exact hr.running_current u (by simpa [hun] using hu)
  · exact hr.ready_nodup.append (List.nodup_singleton _) (by simpa using hnm)
  · intro u
    by_cases hun : u = s.nextId
    · subst hun; simp [Ne.symm hidle]
    · have := hr.mem_ready u
      simp only [List.mem_append, List.mem_singleton, hun, or_false, Sched.setPc_state,
        Sched.setInTimerList_state, Sched.setInWaitQueue_state, Sched.setState_state, if_false,
        Sched.setPc_ready, Sched.setInTimerList_ready, Sched.setInWaitQueue_ready, Sched.setState_ready]
      rw [this]
      constructor
      · rintro ⟨h1, h2, h3⟩; exact ⟨Nat.lt_succ_of_lt h1, h2, h3⟩
      · rintro ⟨h1, h2, h3⟩; exact ⟨Nat.lt_of_le_of_ne (Nat.le_of_lt_succ h1) hun, h2, h3⟩
  · simp [hidle, hr.idle_awake]
  · simpa [hcur] using hrun
  -- the new task is in no wait queue and has no timer event
  · intro q u hm
    have hu := hq.mem_wq hm
    have hun : u ≠ s.nextId := Nat.ne_of_lt hu.1
    simp only [Sched.setPc_inWaitQueue, Sched.setInTimerList_inWaitQueue,
      Sched.setInWaitQueue_inWaitQueue, hun, if_false]
    exact ⟨Nat.lt_succ_of_lt hu.1, hu.2⟩
  · intro u hu
    have hun : u ≠ s.nextId := by rintro rfl; simp at hu
    exact hq.flag_wq u (by simpa [hun] using hu)
  · intro q u hm hb
    have hun : u ≠ s.nextId := Nat.ne_of_lt (hq.mem_wq hm).1
    simpa [hun] using hq.parked_wq hm (by simpa [hun] using hb)
  · intro q u hm hb
    have hun : u ≠ s.nextId := Nat.ne_of_lt (hq.mem_wq hm).1
    simpa [hun] using hq.awake_wq hm (by simpa [hun] using hb)
  · intro d u hm
    have hu := hq.mem_timers hm
    have hun : u ≠ s.nextId := Nat.ne_of_lt hu.1
    simp only [Sched.setPc_inTimerList, Sched.setInTimerList_inTimerList, hun, if_false]
    exact ⟨Nat.lt_succ_of_lt hu.1, hu.2⟩
  · intro u hu
    have hun : u ≠ s.nextId := by rintro rfl; simp at hu
    exact hq.flag_timers u (by simpa [hun] using hu)
  · intro u hu
    have hun : u ≠ s.nextId := by rintro rfl; simp at hu
    simpa [hun] using hq.timer_pc u (by simpa [hun] using hu)
  · intro d u q d' hm hp
    have hun : u ≠ s.nextId := Nat.ne_of_lt (hq.mem_timers hm).1
    exact hq.timer_deadline hm (by simpa [hun] using hp)
  · intro u r hp
    by_cases hun : u = s.nextId
    · simp [hun]
    · simpa [hun] using hq.cancelTimer_flag u r (by simpa [hun] using hp)
  · simpa [hidle] using hq.idle_pc

/-- The current task in its own code is in no wait queue and has no timer event. -/
theorem free_of_user (h : Inv s) (hpc : s.pc s.current = .user) :
    (∀ q, s.current ∉ s.waitQueues q) ∧ s.inTimerList s.current = false :=
  ⟨fun _ => h.queues.not_mem_of_queue_none (by simp [hpc, Pc.queue?]),
    h.queues.timerFlag_of_untimed h.current_not_blocked (by simp [hpc, Pc.timed])⟩

/-- `sleep_until`. -/
theorem sleepUntil (h : Inv s) (hpc : s.pc s.current = .user) (hc : s.current ≠ idle) {d : Nat} :
    Inv (s.sleepUntil d) := by
  obtain ⟨hnot, hf⟩ := h.free_of_user hpc
  dsimp only [Sched.sleepUntil]
  split_ifs
  · rw [Sched.setAlarmWakeup_setState]
    -- blocked at its own code, with the alarm as the only way out
    have hq1 : QueueInv (s.setState s.current .blocked) :=
      h.queues.setState (fun q hm => absurd hm (hnot q)) (fun hf' => by simp [hf] at hf')
    have hq2 := hq1.setAlarmWakeup (d := d) hf h.ready.current_lt (.inr ⟨hpc, by simp⟩)
      (fun q d' hp => by simp [hpc] at hp)
    exact Inv.of_resched ((h.ready.stop hc h.current_running (.inl rfl)).congr rfl rfl rfl rfl) hq2
  · exact h

/-- `exit_current`. -/
theorem exitCurrent (h : Inv s) (hpc : s.pc s.current = .user) (hc : s.current ≠ idle) :
    Inv s.exitCurrent := by
  obtain ⟨hnot, hf⟩ := h.free_of_user hpc
  dsimp only [Sched.exitCurrent]
  have hq1 : QueueInv (s.setState s.current .exited) :=
    h.queues.setState (fun q hm => absurd hm (hnot q)) (fun hf' => by simp [hf] at hf')
  have h2 := notifyAllLocked_inv (h.ready.stop hc h.current_running (.inr rfl)) hq1
    (q := .exitOf s.current)
  have h3 := notifyOneLocked_inv h2.1 h2.2 (q := .waitForExit)
  exact Inv.of_resched h3.1 h3.2

/-- The running current task stays so through an unblock. -/
theorem current_running_unblockTask (hrun : s.state s.current = .running) :
    (s.unblockTask t).state (s.unblockTask t).current = .running := by
  rw [Sched.unblockTask_current, Sched.unblockTask_state]
  split_ifs with hb
  · rw [← hb.1, hrun] at hb; simp at hb
  · exact hrun

/-- `notify_one` from the current task. -/
theorem notifyOne (h : Inv s) : Inv (s.notifyOneLocked q).2 := by
  have hi := notifyOneLocked_inv h.ready h.queues (q := q)
  refine ⟨hi.1, ?_, hi.2⟩
  unfold Sched.notifyOneLocked
  split
  · exact h.current_running
  · exact current_running_unblockTask h.current_running

/-- `notify_task` from the current task. -/
theorem notifyTask (h : Inv s) : Inv (s.notifyTask q t).2 := by
  have hi := notifyTask_inv h.ready h.queues (q := q) (t := t)
  refine ⟨hi.1, ?_, hi.2⟩
  unfold Sched.notifyTask
  split_ifs
  · exact current_running_unblockTask h.current_running
  · exact h.current_running

/-- A call sets the alarm of the current task and moves it to a point that set one. -/
theorem setAlarm_setPc (h : Inv s) (hpc : s.pc s.current = .user) (hc : s.current ≠ idle) {d : Nat}
    (hp : p.timed = true) (hd : ∀ q d', p = .tuLoop q d' ∨ p = .tuCheck q d' → d = d') :
    Inv ((s.setAlarmWakeup d s.current).setPc s.current p) := by
  obtain ⟨hnot, hf⟩ := h.free_of_user hpc
  rw [Sched.setAlarmWakeup_setPc]
  have h1 := h.setPc_free hnot hf (p := p) (fun hci => absurd hci hc)
  refine h1.of_queueInv rfl rfl rfl rfl (h1.queues.setAlarmWakeup hf h.ready.current_lt ?_ ?_)
  · simp [hp]
  · simpa using hd

/-- **The first step of a call** keeps the invariant. -/
theorem call (h : Inv s) (hpc : s.pc s.current = .user) {c : Call}
    (ha : c.allowed s.current = true) : Inv (s.call c) := by
  obtain ⟨hnot, hf⟩ := h.free_of_user hpc
  have hc : c ≠ .yield → s.current ≠ idle := fun hy => by
    cases c <;> simp_all [Call.allowed]
  cases c with
  | spawn => exact h.spawnTask
  | yield => exact Inv.of_resched h.ready h.queues
  | wait q =>
    have hc := hc (by simp)
    exact (h.setPc_free hnot hf (fun hci => absurd hci hc)).blockCurrent (by simp [Pc.Parked]) hnot
  | waitUntil q => exact h.setPc_free hnot hf (fun hci => absurd hci (hc (by simp)))
  | waitTimeout q dur => exact h.setAlarm_setPc hpc (hc (by simp)) rfl (by simp)
  | waitTimeoutUntil q dur => exact h.setAlarm_setPc hpc (hc (by simp)) rfl (by simp)
  | notifyOne q => exact h.notifyOne
  | notifyAll q => exact h.setPc_free hnot hf (fun hci => absurd hci (hc (by simp)))
  | notifyTask q t => exact h.notifyTask
  | sleepUntil d => exact h.sleepUntil hpc (hc (by simp))
  | exit => exact h.exitCurrent hpc (hc (by simp))

/-- **The next step of a call** keeps the invariant. -/
theorem resume (h : Inv s) {b : Bool} {s' : Sched} (hs : s.resume b = some s') : Inv s' := by
  have hb := h.current_not_blocked
  have hq := h.queues
  unfold Sched.resume at hs
  -- the call the current task is in, by its point
  cases hp : s.pc s.current with
  | user => simp [hp] at hs
  | untilCheck q =>
    simp only [hp, Option.some.injEq] at hs
    subst hs
    have hnot : ∀ r, s.current ∉ s.waitQueues r :=
      fun r => hq.not_mem_of_not_awake hb (by simp [hp, Pc.Awake])
    have hf := hq.timerFlag_of_untimed hb (by simp [hp, Pc.timed])
    have hc := h.current_ne_idle (by simp [hp])
    split
    · exact h.setPc_free hnot hf (fun hci => absurd hci hc)
    · exact h.blockCurrent (by simp [hp, Pc.Parked]) hnot
  | timeoutBlock q =>
    simp only [hp, Option.some.injEq] at hs
    subst hs
    have hnot : ∀ r, s.current ∉ s.waitQueues r :=
      fun r => hq.not_mem_of_not_awake hb (by simp [hp, Pc.Awake])
    have hc := h.current_ne_idle (by simp [hp])
    have h1 : Inv (s.setPc s.current (.timeoutResume q)) :=
      h.of_queueInv rfl rfl rfl rfl <| hq.setPc_of_not_mem hnot (fun _ => by simp [Pc.timed])
        (fun _ hp' => by simp at hp') (fun hci => absurd hci hc)
    exact h1.blockCurrent (by simp [Pc.Parked]) hnot
  | timeoutResume q =>
    simp only [hp, Option.some.injEq] at hs
    subst hs
    have hc := h.current_ne_idle (by simp [hp])
    -- a woken waiter may still be in `q`, where it stays awake
    refine h.of_queueInv rfl rfl rfl rfl (hq.setPc (fun r hm => ⟨fun hb' => absurd hb' hb, fun _ => ?_⟩)
      (fun _ => by simp [Pc.timed]) (fun _ hp' => by simp at hp') (fun _ hp' => by simp at hp')
      (fun hci => absurd hci hc))
    simpa [hp, Pc.Awake] using hq.awake_wq hm hb
  | tuLoop q d =>
    simp only [hp, Option.some.injEq] at hs
    subst hs
    have hc := h.current_ne_idle (by simp [hp])
    split
    case isTrue hlt =>
      -- before the deadline the task cannot be awake in `q`
      have hnot : ∀ r, s.current ∉ s.waitQueues r := fun r => hq.not_mem_of_not_awake hb
        (fun r' ha => by rw [hp] at ha; exact absurd ha.2 (Nat.not_le.2 hlt))
      refine h.of_queueInv rfl rfl rfl rfl (hq.setPc_of_not_mem hnot (fun _ => by simp [Pc.timed])
        (fun hm hp' => ?_) (fun hci => absurd hci hc))
      have hd := hq.timer_deadline hm (.inl hp)
      simp only [Pc.tuCheck.injEq, reduceCtorEq, false_or] at hp'
      exact hd.trans hp'.2
    case isFalse =>
      refine h.of_queueInv rfl rfl rfl rfl (hq.setPc (fun r hm => ⟨fun hb' => absurd hb' hb, fun _ => ?_⟩)
        (fun _ => by simp [Pc.timed]) (fun _ hp' => by simp at hp') (fun _ hp' => by simp at hp')
        (fun hci => absurd hci hc))
      have ha := hq.awake_wq hm hb
      rw [hp] at ha
      exact ha.1
  | tuCheck q d =>
    simp only [hp, Option.some.injEq] at hs
    subst hs
    have hnot : ∀ r, s.current ∉ s.waitQueues r :=
      fun r => hq.not_mem_of_not_awake hb (by simp [hp, Pc.Awake])
    have hc := h.current_ne_idle (by simp [hp])
    split
    · exact h.of_queueInv rfl rfl rfl rfl <| hq.setPc_of_not_mem hnot (fun _ => by simp [Pc.timed])
        (fun _ hp' => by simp at hp') (fun hci => absurd hci hc)
    · -- the condition failed: back to the loop with the same deadline, blocked again
      have h1 : Inv (s.setPc s.current (.tuLoop q d)) :=
        h.of_queueInv rfl rfl rfl rfl <| hq.setPc_of_not_mem hnot (fun _ => by simp [Pc.timed])
          (fun hm hp' => ?_) (fun hci => absurd hci hc)
      · exact h1.blockCurrent (by simp [Pc.Parked]) hnot
      · have hd := hq.timer_deadline hm (.inr hp)
        simp only [Pc.tuLoop.injEq, reduceCtorEq, or_false] at hp'
        exact hd.trans hp'.2
  | cancelWq q r =>
    simp only [hp, Option.some.injEq] at hs
    subst hs
    have hc := h.current_ne_idle (by simp [hp])
    have hq1 := hq.cancelWq (q := q) (t := s.current) (by simp [hp, Pc.queue?])
    have hnot : ∀ r', s.current ∉ (s.cancelWq s.current q).waitQueues r' :=
      fun _ => hq1.not_mem_of_flag (by simp)
    -- the timer half keeps whatever alarm the call set
    have hti : (s.cancelWq s.current q).inTimerList s.current = true →
        (Pc.cancelTimer r).timed = true ∨
          (Pc.cancelTimer r = .user ∧ (s.cancelWq s.current q).state s.current = .blocked) := fun hf => by
      rcases hq.timer_pc _ (by simpa using hf) with ht | ⟨hu, -⟩
      · left; simpa [hp, Pc.timed] using ht
      · simp [hp] at hu
    exact h.of_queueInv (by simp) (by simp) (by simp) (by simp) <|
      hq1.setPc_of_not_mem hnot hti (fun _ hp' => by simp at hp') (fun hci => absurd hci hc)
  | cancelTimer r =>
    simp only [hp, Option.some.injEq] at hs
    subst hs
    have hq1 := hq.cancelTimer (t := s.current)
    have hnot : ∀ r', s.current ∉ (s.cancelTimer s.current).waitQueues r' :=
      fun _ => hq1.not_mem_of_flag (by simpa using hq.cancelTimer_flag _ r hp)
    exact h.of_queueInv (by simp) (by simp) (by simp) (by simp) <|
      hq1.setPc_of_not_mem hnot (fun hf => by simp at hf)
        (fun hm => absurd hm (hq1.not_mem_timers_of_flag (by simp))) (fun _ => rfl)
  | notifyAll q =>
    simp only [hp, Option.some.injEq] at hs
    subst hs
    split
    · have hnot : ∀ r, s.current ∉ s.waitQueues r :=
        fun r => hq.not_mem_of_queue_none (by simp [hp, Pc.queue?])
      have hf := hq.timerFlag_of_untimed hb (by simp [hp, Pc.timed])
      exact h.setPc_free hnot hf (fun _ => rfl)
    · exact h.notifyOne

/-- **A timer event expires**: `check_events` and the event's callback. -/
theorem timer (h : Inv s) {d : Nat} (he : s.Expires d t) :
    Inv ({ s with timers := s.timers.erase (d, t) }.timerCallback t) := by
  obtain ⟨hm, hle, -⟩ := he
  have hq2 := h.queues.expire hm
  have hr2 : ReadyInv ({ s with timers := s.timers.erase (d, t) }.setInTimerList t false) :=
    h.ready.congr rfl rfl rfl rfl
  unfold Sched.timerCallback
  refine ⟨hr2.unblockTask (h.queues.mem_timers hm).1, current_running_unblockTask h.current_running,
    hq2.unblockTask ?_ (fun _ hf => by simp at hf)⟩
  -- a blocked waiter whose alarm has passed is awake in its queue
  intro hb r hr
  have hpk := h.queues.parked_wq hr hb
  exact Pc.awake_of_parked hpk (h.queues.timed_of_mem hr (h.queues.mem_timers hm).2)
    (fun q d' hp => h.queues.timer_deadline hm (.inl hp) ▸ hle)

/-- Time passes. -/
theorem tick (h : Inv s) : Inv { s with now := s.now + 1 } :=
  ⟨h.ready.congr rfl rfl rfl rfl, h.current_running,
    h.queues.congr rfl rfl rfl rfl rfl rfl (Nat.le_succ _) fun _ => Iff.rfl⟩

/-- **Every step** keeps the invariant. -/
theorem step (h : Inv s) {a : Action} {s' : Sched} (hs : ArceOS.Task.next s a = some s') : Inv s' := by
  cases a with
  | call c =>
    simp only [ArceOS.Task.next] at hs
    split_ifs at hs with hg
    cases hs
    exact h.call hg.1 hg.2
  | resume b => exact h.resume hs
  | timer d t =>
    simp only [ArceOS.Task.next] at hs
    split_ifs at hs with he
    cases hs
    exact h.timer he
  | tick =>
    simp only [ArceOS.Task.next, Option.some.injEq] at hs
    subst hs
    exact h.tick

end Inv

theorem inv_init : Inv init := by
  refine ⟨⟨by decide, by decide, ?_, by simp [init], ?_, by simp [init, idle, mainTask]⟩, by simp [init],
    ⟨?_, ?_, ?_, ?_, ?_, by simp [init], ?_, ?_, ?_, ?_, ?_, rfl⟩⟩ <;> simp [init]
  -- the ready queue holds `gc` alone
  show ∀ t : Nat, t = 2 ↔ t < 3 ∧ ¬t = 0 ∧ ¬t = 1
  intro t
  omega

/-- **The invariant** holds in every reachable state. -/
theorem inv_of_reachable (h : schedSystem.Reachable s) : Inv s := by
  have hinit : ∀ s, schedSystem.init s → Inv s := fun s hs => by
    subst hs; exact inv_init
  have hstep : ∀ s a s', Inv s → schedSystem.step s a s' → Inv s' :=
    fun _ _ _ hs hst => hs.step hst
  exact LTS.Reachable.invariant hinit hstep h

/-! ## §6 The contract -/

/-- Every wait function ends in `cancel_events`, whose timer half is the step from
    `Pc.cancelTimer`: after it the task is in no wait queue and has no timer event. -/
theorem Inv.wait_return (h : Inv s) {r : Option Bool} {b : Bool} {s' : Sched}
    (hp : s.pc s.current = .cancelTimer r) (hs : next s (.resume b) = some s') :
    s'.current = s.current ∧ s'.pc s.current = .user ∧
      (∀ q, s.current ∉ s'.waitQueues q) ∧ ∀ d, (d, s.current) ∉ s'.timers := by
  simp only [next, Sched.resume, hp, Option.some.injEq] at hs
  subst hs
  have hq1 := h.queues.cancelTimer (t := s.current)
  have hf := h.queues.cancelTimer_flag _ r hp
  refine ⟨by simp, by simp, fun q => ?_, fun d => ?_⟩
  · simpa using h.queues.not_mem_of_flag hf (q := q)
  · simpa using hq1.not_mem_timers_of_flag (by simp) (d := d)

/-- What the scheduler promises in every state it reaches: exactly the current task
    runs; the ready queue holds each ready task but idle exactly once and no other task;
    the flags say whether a task is in a wait queue and whether it has a timer event;
    and a wait function returns with its task in no wait queue and with no timer event. -/
structure SchedContract (s : Sched) : Prop where
  current_lt : s.current < s.nextId
  running_iff : ∀ t, s.state t = .running ↔ t = s.current
  ready_count : ∀ t < s.nextId, t ≠ idle → s.state t = .ready → s.ready.count t = 1
  mem_ready : ∀ t ∈ s.ready, t < s.nextId ∧ t ≠ idle ∧ s.state t = .ready
  inWaitQueue_iff : ∀ t, s.inWaitQueue t = true ↔ ∃ q, t ∈ s.waitQueues q
  inTimerList_iff : ∀ t, s.inTimerList t = true ↔ ∃ d, (d, t) ∈ s.timers
  wait_return : ∀ r b s', s.pc s.current = .cancelTimer r → next s (.resume b) = some s' →
    s'.current = s.current ∧ s'.pc s.current = .user ∧
      (∀ q, s.current ∉ s'.waitQueues q) ∧ ∀ d, (d, s.current) ∉ s'.timers

theorem Inv.contract (h : Inv s) : SchedContract s where
  current_lt := h.ready.current_lt
  running_iff t := ⟨h.ready.running_current t, fun e => e ▸ h.current_running⟩
  ready_count t ht hi hr := List.count_eq_one_of_mem h.ready.ready_nodup ((h.ready.mem_ready t).2 ⟨ht, hi, hr⟩)
  mem_ready t hm := (h.ready.mem_ready t).1 hm
  inWaitQueue_iff t := ⟨h.queues.flag_wq t, fun ⟨_, hm⟩ => (h.queues.mem_wq hm).2⟩
  inTimerList_iff t := ⟨h.queues.flag_timers t, fun ⟨_, hm⟩ => (h.queues.mem_timers hm).2⟩
  wait_return _ _ _ hp hs := h.wait_return hp hs

/-- **The scheduler's contract** holds in every state reachable from `init_scheduler`,
    over every interleaving of the tasks' calls, their steps, timer expiries and time. -/
theorem sched_contract (h : schedSystem.Reachable s) : SchedContract s :=
  (inv_of_reachable h).contract

/-- The contract after `main` spawned a task and waits on a queue, `gc` running. -/
theorem sched_contract_after_wait :
    schedSystem.Reachable ((init.call .spawn).call (.wait (.named 0))) ∧
      SchedContract ((init.call .spawn).call (.wait (.named 0))) := by
  have hr : schedSystem.Reachable ((init.call .spawn).call (.wait (.named 0))) :=
    ⟨init, [.call .spawn, .call (.wait (.named 0))], rfl,
      LTS.Run.cons (show schedSystem.step init (.call .spawn) (init.call .spawn) from rfl)
        (LTS.Run.single rfl)⟩
  exact ⟨hr, sched_contract hr⟩

end ArceOS.Task
