import ArceOS.Sync.Mutex
import ArceOS.Task.NotifyOne

/-!
# Mutual Exclusion and Wake-ups of the Mutex

The invariant `MutexInv` holds in every state `mutexSystem` reaches: the scheduler's
`Inv`; a task holds the guard exactly when `owner_id` is its id; a task away from its
own code is inside `lock`'s `wait_until`, at one of its points; and whenever the mutex
is free and a waiter is blocked in `wq`, some ready or running task is on its way to the
`compare_exchange_weak` of `lock`, or is between the `swap(0)` and the `notify_one` of
`force_unlock` (`WakerProgress`).

That last clause cannot drop the unlocking task: right after `swap(0)` the mutex is free,
its waiters are blocked, and the only task that will wake one is the unlocking task,
which retries nothing (`mutex_unlocked_without_retrier`).
-/

namespace ArceOS.Sync

open ArceOS.Lib ArceOS.Task

/-! ## §1 Who will wake a waiter -/

/-- Task `u` is ready or running. -/
def Active (s : Sched) (u : TaskId) : Prop := s.state u = .ready ∨ s.state u = .running

instance (s : Sched) (u : TaskId) : Decidable (Active s u) := inferInstanceAs (Decidable (_ ∨ _))

theorem active_iff {s : Sched} {u : TaskId} :
    Active s u ↔ s.state u ≠ .blocked ∧ s.state u ≠ .exited := by
  unfold Active
  cases s.state u <;> simp

/-- Task `u` is on its way to `lock`'s `compare_exchange_weak`: at it, or inside
    `wait_until` and no longer blocked. -/
def Retries (m : MutexSys) (u : TaskId) : Prop :=
  m.phase u = .locking ∨ (m.phase u = .waiting ∧ m.sched.state u ≠ .blocked)

instance (m : MutexSys) (u : TaskId) : Decidable (Retries m u) :=
  inferInstanceAs (Decidable (_ ∨ (_ ∧ _)))

/-- Task `u` will retry the `compare_exchange_weak`, or is about to wake a waiter. -/
def Wakes (m : MutexSys) (u : TaskId) : Prop := Retries m u ∨ m.phase u = .unlocking

/-- Some task is blocked in the mutex's queue. -/
def HasBlockedWaiter (m : MutexSys) : Prop :=
  ∃ t ∈ m.sched.waitQueues mutexQueue, m.sched.state t = .blocked

/-- No waiter is left blocked by a lost wake-up, as first stated: whenever the mutex is
    free and a waiter is blocked, some existing ready or running task will retry the
    `compare_exchange_weak`. -/
def RetrierProgress (m : MutexSys) : Prop :=
  m.ownerId = 0 → HasBlockedWaiter m → ∃ u < m.sched.nextId, Active m.sched u ∧ Retries m u

instance (m : MutexSys) : Decidable (RetrierProgress m) :=
  inferInstanceAs (Decidable (m.ownerId = 0 →
    (∃ t ∈ m.sched.waitQueues mutexQueue, m.sched.state t = .blocked) →
      ∃ u, u < m.sched.nextId ∧ (Active m.sched u ∧ Retries m u)))

/-- The same, where the task that will wake a waiter may also be the unlocking one. -/
def WakerProgress (m : MutexSys) : Prop :=
  m.ownerId = 0 → HasBlockedWaiter m → ∃ u < m.sched.nextId, Active m.sched u ∧ Wakes m u

variable {m m' : MutexSys} {t u : TaskId}

namespace WakerProgress

theorem of_locked (h : m.ownerId ≠ 0) : WakerProgress m := fun h0 => absurd h0 h

theorem of_witness (hu : u < m.sched.nextId) (ha : Active m.sched u) (hw : Wakes m u) :
    WakerProgress m := fun _ _ => ⟨u, hu, ha, hw⟩

/-- Progress carries over a step that keeps `owner_id`, adds no blocked waiter and
    keeps every witness. -/
theorem transfer (hp : WakerProgress m) (hown : m'.ownerId = m.ownerId)
    (hwq : ∀ t ∈ m'.sched.waitQueues mutexQueue, m'.sched.state t = .blocked →
      t ∈ m.sched.waitQueues mutexQueue ∧ m.sched.state t = .blocked)
    (hw : ∀ u < m.sched.nextId, Active m.sched u → Wakes m u →
      u < m'.sched.nextId ∧ Active m'.sched u ∧ Wakes m' u) : WakerProgress m' := by
  intro h0 ⟨t, ht, hb⟩
  obtain ⟨u, hu, ha, hwu⟩ := hp (hown ▸ h0) ⟨t, hwq t ht hb⟩
  exact ⟨u, hw u hu ha hwu⟩

/-- Progress carries over a step that keeps `owner_id`, the phases, the states and the
    number of tasks, and only takes tasks out of the queue. -/
theorem congr (hp : WakerProgress m) (hown : m'.ownerId = m.ownerId) (hph : m'.phase = m.phase)
    (hst : m'.sched.state = m.sched.state) (hn : m'.sched.nextId = m.sched.nextId)
    (hwq : ∀ t ∈ m'.sched.waitQueues mutexQueue, t ∈ m.sched.waitQueues mutexQueue) :
    WakerProgress m' :=
  hp.transfer hown (fun t ht hb => ⟨hwq t ht, hst ▸ hb⟩) fun u hu ha hw => by
    refine ⟨hn ▸ hu, ?_, ?_⟩
    · unfold Active at ha ⊢
      rw [hst]
      exact ha
    · unfold Wakes Retries at hw ⊢
      rw [hph, hst]
      exact hw

end WakerProgress

/-! ## §2 The invariant -/

/-- The points of the scheduler's `wait_until` on the mutex's queue. -/
def WaitPc (p : Pc) : Prop :=
  p = .untilCheck mutexQueue ∨ p = .cancelWq mutexQueue none ∨ p = .cancelTimer none

/-- The invariant of the mutex over the scheduler. -/
structure MutexInv (m : MutexSys) : Prop where
  sched : Inv m.sched
  holding_iff : ∀ t, m.phase t = .holding ↔ m.ownerId = asU64 t
  phase_fresh : ∀ t, m.sched.nextId ≤ t → m.phase t = .outside
  pc_user : ∀ t, m.phase t ≠ .waiting → m.sched.pc t = .user
  pc_waiting : ∀ t, m.phase t = .waiting → WaitPc (m.sched.pc t)
  progress : WakerProgress m

namespace MutexInv

/-- A task in a wait queue waits for the mutex. -/
theorem waiter_phase (h : MutexInv m) (ht : t ∈ m.sched.waitQueues mutexQueue) :
    m.phase t = .waiting := by
  by_contra hw
  have := h.sched.queues.queue_of_mem ht
  simp [h.pc_user t hw, Pc.queue?] at this

/-- No timer wakes a waiter of the mutex: every task in a wait queue is blocked. -/
theorem waiter_blocked (h : MutexInv m) {q : QueueId} (ht : t ∈ m.sched.waitQueues q) :
    m.sched.state t = .blocked := by
  by_contra hb
  have ha := h.sched.queues.awake_wq ht hb
  by_cases hw : m.phase t = .waiting
  · rcases h.pc_waiting t hw with hp | hp | hp <;> rw [hp] at ha <;> exact ha
  · rw [h.pc_user t hw] at ha
    exact ha

theorem current_lt (h : MutexInv m) : m.sched.current < m.sched.nextId := h.sched.ready.current_lt

theorem ne_current_of_ge (h : MutexInv m) (ht : m.sched.nextId ≤ t) : t ≠ m.sched.current :=
  fun e => Nat.lt_irrefl _ (Nat.lt_of_lt_of_le (e ▸ h.current_lt) ht)

/-- The current task takes the mutex, free. -/
theorem acquire (h : MutexInv m) (hpc : m.sched.pc m.sched.current = .user) (h0 : m.ownerId = 0) :
    MutexInv { m.setPhase m.sched.current .holding with ownerId := asU64 m.sched.current } := by
  refine ⟨h.sched, fun t => ?_, fun t ht => ?_, fun t hw => ?_, fun t hw => ?_,
    .of_locked (asU64_ne_zero _)⟩
  · by_cases htc : t = m.sched.current
    · simp [htc]
    · -- no other task held the free mutex
      have hno : m.phase t ≠ .holding := fun hh => asU64_ne_zero t (h0 ▸ (h.holding_iff t).1 hh).symm
      simp only [MutexSys.setPhase_phase, htc, if_false]
      exact ⟨fun hh => absurd hh hno, fun e => absurd (asU64_injective e) (Ne.symm htc)⟩
  · simp [h.ne_current_of_ge ht, h.phase_fresh t ht]
  · by_cases htc : t = m.sched.current
    · subst htc; exact hpc
    · exact h.pc_user t (by simpa [htc] using hw)
  · have htc : t ≠ m.sched.current := by rintro rfl; simp at hw
    exact h.pc_waiting t (by simpa [htc] using hw)

/-! ### The steps of the tasks' own code -/

/-- `spawn_task`: the new task is outside the mutex. -/
theorem spawn (h : MutexInv m) (hown : m.OwnCode) :
    MutexInv { m with sched := m.sched.call .spawn } := by
  obtain ⟨hpc, hc⟩ := hown
  have hfresh : m.phase m.sched.nextId = .outside := h.phase_fresh _ (Nat.le_refl _)
  refine ⟨h.sched.call hpc (c := .spawn) (by simp [Call.allowed, hc]), h.holding_iff, fun t ht => ?_,
    fun t hw => ?_, fun t hw => ?_, ?_⟩
  · exact h.phase_fresh t (Nat.le_of_succ_le ht)
  · show m.sched.spawnTask.pc t = .user
    rw [Sched.spawnTask_pc]
    split_ifs
    · rfl
    · exact h.pc_user t hw
  · have ht : t ≠ m.sched.nextId := by rintro rfl; rw [hfresh] at hw; cases hw
    show WaitPc (m.sched.spawnTask.pc t)
    rw [Sched.spawnTask_pc, if_neg ht]
    exact h.pc_waiting t hw
  · -- the tasks there already keep their states
    have hold : ∀ u < m.sched.nextId, m.sched.spawnTask.state u = m.sched.state u :=
      fun u hu => by rw [Sched.spawnTask_state, if_neg (Nat.ne_of_lt hu)]
    refine h.progress.transfer rfl (fun t ht hb => ?_) (fun u hu ha hw => ?_)
    · have htn := (h.sched.queues.mem_wq ht).1
      exact ⟨ht, (hold t htn) ▸ hb⟩
    · refine ⟨Nat.lt_succ_of_lt hu, ?_, ?_⟩
      · show Active m.sched.spawnTask u
        unfold Active; rw [hold u hu]; exact ha
      · show Wakes { m with sched := m.sched.spawnTask } u
        unfold Wakes Retries; rw [show m.sched.spawnTask.state u = m.sched.state u from hold u hu]
        exact hw

/-- `yield`, or a preemption in the task's own code. -/
theorem yield (h : MutexInv m) (hpc : m.sched.pc m.sched.current = .user) :
    MutexInv { m with sched := m.sched.call .yield } := by
  have hpcs : m.sched.resched.pc = m.sched.pc := by simp [Sched.resched]
  have hr := h.sched.ready
  -- `resched` keeps which tasks are blocked and which are active
  have hb : ∀ u, m.sched.resched.state u = .blocked ↔ m.sched.state u = .blocked :=
    hr.resched_stopped (by simp) (by simp)
  have he : ∀ u, m.sched.resched.state u = .exited ↔ m.sched.state u = .exited :=
    hr.resched_stopped (by simp) (by simp)
  have hact : ∀ u, Active m.sched.resched u ↔ Active m.sched u := fun u => by
    simp only [active_iff, ne_eq, hb u, he u]
  refine ⟨h.sched.call hpc (c := .yield) rfl, h.holding_iff, fun t ht => h.phase_fresh t (by simpa [Sched.call,
    Sched.resched] using ht), fun t hw => ?_, fun t hw => ?_, ?_⟩
  · show m.sched.resched.pc t = .user
    rw [hpcs]; exact h.pc_user t hw
  · show WaitPc (m.sched.resched.pc t)
    rw [hpcs]; exact h.pc_waiting t hw
  · refine h.progress.transfer rfl (fun t ht hbt => ⟨by simpa [Sched.call, Sched.resched] using ht,
      (hb t).1 hbt⟩) (fun u hu ha hw => ⟨by simpa [Sched.call, Sched.resched] using hu,
      (hact u).2 ha, ?_⟩)
    show Wakes { m with sched := m.sched.resched } u
    unfold Wakes Retries at hw ⊢
    simp only [ne_eq, hb u]
    exact hw

/-- One turn of `lock`'s loop. -/
theorem casWeak (h : MutexInv m) (hown : m.OwnCode) {b : Bool} (hm : m.casWeak b = .ok m') :
    MutexInv m' := by
  obtain ⟨hpc, hc⟩ := hown
  dsimp only [MutexSys.casWeak] at hm
  -- a task that owns the mutex panics in `assert_ne!`, which is no `.ok`
  split_ifs at hm with h1 h2
  · cases hm
    exact h.acquire hpc h1.1
  · cases hm
    -- the mutex is taken, or the exchange failed spuriously: `wait_until`
    have hnh : m.phase m.sched.current ≠ .holding := fun hh => h2 ((h.holding_iff _).1 hh)
    refine ⟨h.sched.call hpc (c := .waitUntil mutexQueue) (by simp [Call.allowed, hc]), fun t => ?_,
      fun t ht => ?_, fun t hw => ?_, fun t hw => ?_, ?_⟩
    · by_cases htc : t = m.sched.current
      · subst htc; simp [h2]
      · simpa [htc] using h.holding_iff t
    · simp [h.ne_current_of_ge ht, h.phase_fresh t (by simpa [Sched.call] using ht)]
    · have htc : t ≠ m.sched.current := by rintro rfl; simp at hw
      show (m.sched.setPc m.sched.current (.untilCheck mutexQueue)).pc t = .user
      simpa [htc] using h.pc_user t (by simpa [htc] using hw)
    · show WaitPc ((m.sched.setPc m.sched.current (.untilCheck mutexQueue)).pc t)
      by_cases htc : t = m.sched.current
      · simp [htc, WaitPc]
      · simpa [htc] using h.pc_waiting t (by simpa [htc] using hw)
    · by_cases h0 : m.ownerId = 0
      · -- a spurious failure: the task itself goes on to retry
        refine .of_witness (u := m.sched.current) h.current_lt ?_ (.inl (.inr ⟨by simp, ?_⟩))
        · exact .inr (by simpa [Sched.call] using h.sched.current_running)
        · simpa [Sched.call] using h.sched.current_not_blocked
      · exact .of_locked h0

/-- `try_lock`. -/
theorem tryLock (h : MutexInv m) (hown : m.OwnCode) : MutexInv m.tryLock.2 := by
  unfold MutexSys.tryLock
  split_ifs with h0
  · exact h.acquire hown.1 h0
  · exact h

/-- `force_unlock`'s `swap(0)`: the unlocking task will wake a waiter. -/
theorem unlockSwap (h : MutexInv m) (hown : m.OwnCode) (hm : m.unlockSwap = .ok m') :
    MutexInv m' := by
  dsimp only [MutexSys.unlockSwap] at hm
  split_ifs at hm with h1
  cases hm
  refine ⟨h.sched, fun t => ?_, fun t ht => ?_, fun t hw => ?_, fun t hw => ?_, ?_⟩
  · by_cases htc : t = m.sched.current
    · subst htc; simp [Ne.symm (asU64_ne_zero _)]
    · -- another task held nothing: the current task owned the mutex
      have hno : m.phase t ≠ .holding := fun hh =>
        htc (asU64_injective (((h.holding_iff t).1 hh).symm.trans h1).symm.symm)
      simp only [MutexSys.setPhase_phase, htc, if_false]
      exact ⟨fun hh => absurd hh hno, fun e => absurd e.symm (asU64_ne_zero t)⟩
  · simp [h.ne_current_of_ge ht, h.phase_fresh t ht]
  · by_cases htc : t = m.sched.current
    · subst htc; exact hown.1
    · exact h.pc_user t (by simpa [htc] using hw)
  · have htc : t ≠ m.sched.current := by rintro rfl; simp at hw
    exact h.pc_waiting t (by simpa [htc] using hw)
  · refine .of_witness (u := m.sched.current) h.current_lt (.inr h.sched.current_running) (.inr ?_)
    simp

/-- `force_unlock`'s `notify_one`: the waiter it pops is blocked, and becomes ready on
    its way to retry. -/
theorem unlockNotify (h : MutexInv m) (hown : m.OwnCode)
    (hph : m.phase m.sched.current = .unlocking) : MutexInv m.unlockNotify := by
  obtain ⟨hpc, hc⟩ := hown
  have hnh : m.ownerId ≠ asU64 m.sched.current := fun e => by
    rw [(h.holding_iff _).2 e] at hph; cases hph
  refine ⟨h.sched.call hpc (c := .notifyOne mutexQueue) (by simp [Call.allowed, hc]), fun t => ?_,
    fun t ht => ?_, fun t hw => ?_, fun t hw => ?_, ?_⟩
  · by_cases htc : t = m.sched.current
    · subst htc; simp [MutexSys.unlockNotify, hnh]
    · simpa [MutexSys.unlockNotify, htc] using h.holding_iff t
  · have ht' : m.sched.nextId ≤ t := by simpa [MutexSys.unlockNotify, Sched.call] using ht
    simp [MutexSys.unlockNotify, h.ne_current_of_ge ht', h.phase_fresh t ht']
  · show (m.sched.notifyOneLocked mutexQueue).2.pc t = .user
    rw [Sched.notifyOneLocked_pc]
    by_cases htc : t = m.sched.current
    · subst htc; exact hpc
    · exact h.pc_user t (by simpa [MutexSys.unlockNotify, htc] using hw)
  · have htc : t ≠ m.sched.current := by rintro rfl; simp [MutexSys.unlockNotify] at hw
    show WaitPc ((m.sched.notifyOneLocked mutexQueue).2.pc t)
    rw [Sched.notifyOneLocked_pc]
    exact h.pc_waiting t (by simpa [MutexSys.unlockNotify, htc] using hw)
  · rintro h0 ⟨t, ht, hb⟩
    -- the queue is not empty: its front task is the witness
    cases hq : m.sched.waitQueues mutexQueue with
    | nil =>
      have : (m.sched.notifyOneLocked mutexQueue).2.waitQueues mutexQueue = [] := by
        simp [Sched.notifyOneLocked, hq]
      simp [MutexSys.unlockNotify, Sched.call, this] at ht
    | cons w rest =>
      have hw : w ∈ m.sched.waitQueues mutexQueue := by simp [hq]
      have hwb := h.waiter_blocked hw
      obtain ⟨-, hready, -, -⟩ := notifyOneLocked_front_blocked hq hwb
      have hwc : w ≠ m.sched.current := fun e => h.sched.current_not_blocked (e ▸ hwb)
      refine ⟨w, by simpa [MutexSys.unlockNotify, Sched.call] using (h.sched.queues.mem_wq hw).1,
        .inl hready, .inl (.inr ⟨?_, ?_⟩)⟩
      · simpa [MutexSys.unlockNotify, hwc] using h.waiter_phase hw
      · show (m.sched.notifyOneLocked mutexQueue).2.state w ≠ .blocked
        rw [hready]; simp

/-! ### The steps of `wait_until` -/

/-- A step inside `wait_until` that keeps the task in it: only its point moves, to
    another point of `wait_until`. -/
theorem of_waitStep (h : MutexInv m) (hph : m.phase m.sched.current = .waiting) {s' : Sched}
    (hs : Inv s') (hn : s'.nextId = m.sched.nextId)
    (hpc : ∀ t, t ≠ m.sched.current → s'.pc t = m.sched.pc t)
    (hc : WaitPc (s'.pc m.sched.current)) (hp : WakerProgress { m with sched := s' }) :
    MutexInv { m with sched := s' } := by
  refine ⟨hs, h.holding_iff, fun t ht => h.phase_fresh t (hn ▸ ht), fun t hw => ?_,
    fun t hw => ?_, hp⟩
  · have htc : t ≠ m.sched.current := by rintro rfl; exact hw hph
    show s'.pc t = .user
    rw [hpc t htc]; exact h.pc_user t hw
  · show WaitPc (s'.pc t)
    by_cases htc : t = m.sched.current
    · subst htc; exact hc
    · rw [hpc t htc]; exact h.pc_waiting t hw

/-- The next step of `lock`'s `wait_until`. -/
theorem resumeWait (h : MutexInv m) (hph : m.phase m.sched.current = .waiting)
    (hm : m.resumeWait = some m') : MutexInv m' := by
  dsimp only [MutexSys.resumeWait] at hm
  obtain ⟨s', hs', rfl⟩ := Option.map_eq_some_iff.1 hm
  have hinv := h.sched.resume hs'
  unfold Sched.resume at hs'
  rcases h.pc_waiting _ hph with hp | hp | hp
  · -- the check of `!is_locked()` under `RUN_QUEUE`
    simp only [hp, Option.some.injEq] at hs'
    subst hs'
    by_cases h0 : m.ownerId = 0
    · -- free: on to `cancel_events`
      have hpc' : (m.sched.setPc m.sched.current (.cancelWq mutexQueue none)).pc m.sched.current ≠ .user := by
        simp
      have hc : (m.ownerId == 0) = true := by simp [h0]
      rw [if_pos hc] at hinv ⊢
      rw [if_neg hpc']
      exact h.of_waitStep hph hinv rfl (fun t ht => by simp [ht])
        (by simp [WaitPc]) (h.progress.congr rfl rfl rfl rfl (fun t ht => ht))
    · -- taken: blocked again in `wq`, where only the owner's unlock wakes it
      have hb0 : (m.ownerId == 0) = false := by simpa using h0
      have hpc' : (m.sched.blockCurrent mutexQueue).pc m.sched.current ≠ .user := by simp [hp]
      rw [hb0, if_neg Bool.false_ne_true] at hinv ⊢
      rw [if_neg hpc']
      exact h.of_waitStep hph hinv (by simp [Sched.blockCurrent, Sched.resched])
        (fun t _ => by simp) (by simp [hp, WaitPc]) (.of_locked h0)
  · -- the wait-queue half of `cancel_events`
    simp only [hp, Option.some.injEq] at hs'
    subst hs'
    have hpc' : ((m.sched.cancelWq m.sched.current mutexQueue).setPc m.sched.current
        (.cancelTimer none)).pc m.sched.current ≠ .user := by simp
    rw [if_neg hpc']
    -- it only takes the task out of `wq`
    have hsub : ∀ t ∈ (m.sched.cancelWq m.sched.current mutexQueue).waitQueues mutexQueue,
        t ∈ m.sched.waitQueues mutexQueue := by
      intro t ht
      unfold Sched.cancelWq at ht
      split at ht
      · simp only [Sched.setInWaitQueue_waitQueues, Sched.setWaitQueue_waitQueues, if_true,
          List.mem_filter] at ht
        exact ht.1
      · exact ht
    exact h.of_waitStep hph hinv (by simp) (fun t ht => by simp [ht]) (by simp [WaitPc])
      (h.progress.congr rfl rfl (by simp) (by simp) (fun t ht => hsub t (by simpa using ht)))
  · -- the timer half of `cancel_events`: `wait_until` returns and `lock` goes round
    simp only [hp, Option.some.injEq] at hs'
    subst hs'
    rw [if_pos (by simp)]
    refine ⟨hinv, fun t => ?_, fun t ht => ?_, fun t hw => ?_, fun t hw => ?_, ?_⟩
    · by_cases htc : t = m.sched.current
      · -- the waiter held nothing
        have hnh : m.ownerId ≠ asU64 m.sched.current := fun e => by
          rw [(h.holding_iff _).2 e] at hph; cases hph
        subst htc; simp [hnh]
      · simpa [htc] using h.holding_iff t
    · have ht' : m.sched.nextId ≤ t := by simpa using ht
      simp [h.ne_current_of_ge ht', h.phase_fresh t ht']
    · by_cases htc : t = m.sched.current
      · simp [htc]
      · have hw' : m.phase t ≠ .waiting := by simpa [htc] using hw
        simpa [htc] using h.pc_user t hw'
    · have htc : t ≠ m.sched.current := by rintro rfl; simp at hw
      simpa [htc] using h.pc_waiting t (by simpa [htc] using hw)
    · refine h.progress.transfer rfl (fun t ht hb => ⟨by simpa using ht, by simpa using hb⟩)
        (fun u hu ha hw => ⟨by simpa using hu, by simpa [Active] using ha, ?_⟩)
      unfold Wakes Retries at hw ⊢
      by_cases huc : u = m.sched.current
      · simp [huc]
      · simpa [huc] using hw

/-- Time passes. -/
theorem tick (h : MutexInv m) :
    MutexInv { m with sched := { m.sched with now := m.sched.now + 1 } } :=
  ⟨h.sched.tick, h.holding_iff, h.phase_fresh, h.pc_user, h.pc_waiting, h.progress⟩

/-- **Every step** keeps the invariant. -/
theorem step (h : MutexInv m) {a : MutexAction} (hs : m.next a = some m') : MutexInv m' := by
  cases a with
  | spawn =>
    simp only [MutexSys.next] at hs
    split_ifs at hs with hg
    cases hs
    exact h.spawn hg.1
  | yield =>
    simp only [MutexSys.next] at hs
    split_ifs at hs with hg
    cases hs
    exact h.yield hg
  | lock b =>
    simp only [MutexSys.next] at hs
    split_ifs at hs with hg
    split at hs
    · cases hs
      exact h.casWeak hg.1 ‹_›
    · cases hs
  | tryLock =>
    simp only [MutexSys.next] at hs
    split_ifs at hs with hg
    cases hs
    exact h.tryLock hg.1
  | unlock =>
    simp only [MutexSys.next] at hs
    split_ifs at hs with hg
    split at hs
    · cases hs
      exact h.unlockSwap hg.1 ‹_›
    · cases hs
  | notify =>
    simp only [MutexSys.next] at hs
    split_ifs at hs with hg
    cases hs
    exact h.unlockNotify hg.1 hg.2
  | resume =>
    simp only [MutexSys.next] at hs
    split_ifs at hs with hg
    exact h.resumeWait hg hs
  | tick =>
    simp only [MutexSys.next, Option.some.injEq] at hs
    subst hs
    exact h.tick

end MutexInv

theorem mutexInv_init : MutexInv MutexSys.init where
  sched := inv_init
  holding_iff t := by simp [MutexSys.init, Ne.symm (asU64_ne_zero t)]
  phase_fresh _ _ := rfl
  pc_user _ _ := rfl
  pc_waiting t hw := by simp [MutexSys.init] at hw
  progress := fun _ ⟨t, ht, _⟩ => by simp [MutexSys.init, ArceOS.Task.init] at ht

/-- **The invariant** holds in every reachable state. -/
theorem mutexInv_of_reachable (h : mutexSystem.Reachable m) : MutexInv m := by
  have hinit : ∀ m, mutexSystem.init m → MutexInv m := fun m hm => by
    subst hm; exact mutexInv_init
  have hstep : ∀ m a m', MutexInv m → mutexSystem.step m a m' → MutexInv m' :=
    fun _ _ _ hm hst => hm.step hst
  exact LTS.Reachable.invariant hinit hstep h

/-! ## §4 The contract -/

/-- What the mutex promises in every state it reaches: one holder at most, whose id is
    `owner_id`, which is 0 when no task holds the guard; `lock` by the holder panics;
    and while the mutex is free and a waiter is blocked, a ready or running task will
    retry the `compare_exchange_weak` or is about to wake a waiter. -/
structure MutexContract (m : MutexSys) : Prop where
  one_holder : ∀ t u, m.phase t = .holding → m.phase u = .holding → t = u
  owner_of_holder : ∀ t, m.phase t = .holding → m.ownerId = asU64 t
  free_of_no_holder : (∀ t, m.phase t ≠ .holding) → m.ownerId = 0
  relock_panics : m.phase m.sched.current = .holding →
    ∀ spurious, m.casWeak spurious = .error "tried to acquire mutex it already owns."
  progress : WakerProgress m

theorem MutexInv.contract (h : MutexInv m) : MutexContract m where
  one_holder t u ht hu := asU64_injective (((h.holding_iff t).1 ht).symm.trans ((h.holding_iff u).1 hu))
  owner_of_holder t ht := (h.holding_iff t).1 ht
  free_of_no_holder hno := by
    by_contra h0
    -- a taken mutex is the id of some task, which then holds the guard
    obtain ⟨k, hk⟩ := Nat.exists_eq_succ_of_ne_zero h0
    exact hno k ((h.holding_iff k).2 hk)
  relock_panics hh _ := by
    have ho := (h.holding_iff _).1 hh
    simp [MutexSys.casWeak, ho, asU64_ne_zero]
  progress := h.progress

/-- **The mutex's contract** holds in every reachable state, over every interleaving of
    `lock`, `try_lock`, guard drops and the scheduler's steps. -/
theorem mutex_contract (h : mutexSystem.Reachable m) : MutexContract m :=
  (mutexInv_of_reachable h).contract

/-- The state after `main` took the mutex. -/
def afterLock : MutexSys := { MutexSys.init.setPhase mainTask .holding with ownerId := asU64 mainTask }

theorem mutex_contract_after_lock : mutexSystem.Reachable afterLock ∧ MutexContract afterLock := by
  have hr : mutexSystem.Reachable afterLock :=
    ⟨MutexSys.init, [.lock false], rfl, LTS.Run.single rfl⟩
  exact ⟨hr, mutex_contract hr⟩

/-- `main` takes the mutex and spawns task 3; `main` and `gc` yield; task 3 finds the
    mutex taken and blocks in `wq`; `main` runs again and drops its guard, up to the
    `swap(0)`. -/
def unlockRun : List MutexAction :=
  [.lock false, .spawn, .yield, .yield, .lock false, .resume, .unlock]

/-- **Progress fails as first stated**: right after `force_unlock`'s `swap(0)` the mutex
    is free and task 3 is blocked in `wq`, but no ready or running task will retry the
    `compare_exchange_weak`: only the unlocking task, whose `notify_one` is still to
    come, will wake it. -/
theorem mutex_unlocked_without_retrier : ∃ m, mutexSystem.Reachable m ∧ ¬ RetrierProgress m := by
  have hx : (LTS.exec MutexSys.next MutexSys.init unlockRun).map
      (fun m => decide (RetrierProgress m)) = some false := by decide
  cases hm : LTS.exec MutexSys.next MutexSys.init unlockRun with
  | none => rw [hm] at hx; cases hx
  | some m =>
    rw [hm] at hx
    exact ⟨m, ⟨_, _, rfl, LTS.exec_run hm⟩, by simpa using hx⟩

end ArceOS.Sync
