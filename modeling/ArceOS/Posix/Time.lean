import ArceOS.Lib.Duration
import ArceOS.Posix.FdOps
import ArceOS.Libc.Malloc

/-!
# Sleeping and Timeouts

The conversions between `Duration` and the C `timespec` and `timeval` of
`arceos_posix_api/src/imp/time.rs`, and what `sys_nanosleep`, `sys_select` and
`axtask::sleep` compute with them. The C fields are `c_long`s, `Int`s here in the range of
`i64`; the `From` impls cast them with `as u64` and `as u32`, which keep the value modulo
`2 ^ 64` and `2 ^ 32`, and `tv_usec as u32 * 1000` is a product of `u32`s, which wraps
modulo `2 ^ 32` in a release build. `Duration::new` panics when the nanoseconds it carries
overflow the seconds, and `wall_time() + dur` panics when the sum reaches `2 ^ 64`
seconds. The clocks are parameters: the wall clock when `sleep` reads it, and the monotonic
clock before and after the sleep.

`sys_nanosleep` checks `tv_nsec` and nothing else. A negative `tv_sec` becomes a `u64`
near `2 ^ 64` seconds, so once the wall clock has passed that many seconds the deadline
overflows, and the call panics where it should return `EINVAL`. `sys_select` checks
nothing of its `timeval`: a negative `tv_sec` panics the same way, and a `tv_usec` of a
second or more is multiplied in `u32` and wraps.

## Main results

- `toDuration_ofDuration`: a duration of at most `i64::MAX` seconds comes back from
  `timespec` unchanged;
- `Timespec.toDuration_of_valid`: a valid `timespec` is the duration it writes down;
- `sysNanosleep_of_neg`, `selectDeadline_of_neg`: a negative `tv_sec` whose magnitude
  the wall clock has passed makes both calls panic;
- `timeouts_panic_or_wrap`: `tv_sec = -1` panics in `sys_nanosleep` and `sys_select`, and
  `tv_usec = 5000000` is read as `0.705032704` seconds.
-/

namespace ArceOS.Posix

open ArceOS.Lib ArceOS.Libc

/-! ## §1 The C types and their casts -/

/-- `struct timespec`. -/
structure Timespec where
  tvSec : Int
  tvNsec : Int
  deriving DecidableEq, Repr

/-- `struct timeval`. -/
structure Timeval where
  tvSec : Int
  tvUsec : Int
  deriving DecidableEq, Repr

/-- `v as u64` for a `c_long` `v`. -/
def longAsU64 (v : Int) : Nat := (v % 2 ^ 64).toNat

/-- `v as u32` for a `c_long` `v`. -/
def longAsU32 (v : Int) : Nat := (v % 2 ^ 32).toNat

/-- `n as c_long` for a `u64` `n`. -/
def u64AsLong (n : Nat) : Int := if n < 2 ^ 63 then n else (n : Int) - 2 ^ 64

/-! ## §2 Durations and their panics -/

/-- `Option::expect(msg)`: the value, or the panic. -/
def expect {α : Type} (o : Option α) (f : Fault) : Except Fault α :=
  match o with
  | some a => .ok a
  | none => .error f

theorem except_ok_bind {ε α β : Type} (a : α) (f : α → Except ε β) :
    (Except.ok a >>= f) = f a := rfl

theorem except_error_bind {ε α β : Type} (e : ε) (f : α → Except ε β) :
    (Except.error e >>= f) = .error e := rfl

/-- The panic of `Duration::new`. -/
def newOverflow : Fault := .panic "overflow in Duration::new"

/-- The panic of `Duration + Duration`. -/
def addOverflow : Fault := .panic "overflow when adding durations"

/-- The panic of `Duration - Duration`. -/
def subOverflow : Fault := .panic "overflow when subtracting durations"

/-- `Duration::new(secs, nanos)`. -/
def durationNew (secs nanos : Nat) : Except Fault Duration :=
  expect (Duration.new? secs nanos) newOverflow

/-- `a + b` on durations. -/
def durationAdd (a b : Duration) : Except Fault Duration := expect (a.checkedAdd b) addOverflow

/-- `a - b` on durations. -/
def durationSub (a b : Duration) : Except Fault Duration := expect (a.checkedSub b) subOverflow

/-- `Duration::from(timespec)`: `Duration::new(tv_sec as u64, tv_nsec as u32)`. -/
def Timespec.toDuration (ts : Timespec) : Except Fault Duration :=
  durationNew (longAsU64 ts.tvSec) (longAsU32 ts.tvNsec)

/-- `Duration::from(timeval)`: `Duration::new(tv_sec as u64, tv_usec as u32 * 1000)`. -/
def Timeval.toDuration (tv : Timeval) : Except Fault Duration :=
  durationNew (longAsU64 tv.tvSec) (longAsU32 tv.tvUsec * 1000 % 2 ^ 32)

/-- `timespec::from(Duration)`. -/
def Timespec.ofDuration (d : Duration) : Timespec :=
  ⟨u64AsLong d.asSecs, d.subsecNanos⟩

/-! ## §3 The calls -/

/-- `axtask::sleep(dur)` and `axhal::time::busy_wait(dur)`, up to the deadline they wait
    for: `wall_time() + dur`, the wall clock reading `now`. -/
def sleepDeadline (now dur : Duration) : Except Fault Duration := durationAdd now dur

/-- `sys_nanosleep(req, rem)`, with `*req` (`none` for null), whether `rem` is null, the
    monotonic clock before and after the sleep and the wall clock when `sleep` reads it:
    the C return value and what is stored in `*rem`. -/
def sysNanosleep (req : Option Timespec) (remNull : Bool)
    (monoBefore wallNow monoAfter : Duration) : Except Fault (Int × Option Timespec) :=
  match req with
  | none => .ok (syscallBody (.error .EINVAL), none)
  | some ts =>
    if ts.tvNsec < 0 ∨ ts.tvNsec > 999999999 then .ok (syscallBody (.error .EINVAL), none)
    else do
      let dur ← ts.toDuration
      let _ ← sleepDeadline wallNow dur
      let actual ← durationSub monoAfter monoBefore
      match dur.checkedSub actual with
      | some diff =>
        pure (syscallBody (.error .EINTR), if remNull then none else some (.ofDuration diff))
      | none => pure (syscallBody (.ok 0), none)

/-- The deadline `sys_select` computes after its `nfds` check: `wall_time() +
    (*timeout).into()` for a non-null `timeout`. -/
def selectDeadline (wallNow : Duration) (timeout : Option Timeval) :
    Except Fault (Option Duration) :=
  match timeout with
  | none => .ok none
  | some tv => do
    let d ← tv.toDuration
    let deadline ← durationAdd wallNow d
    pure (some deadline)

/-! ## §4 The casts on their ranges -/

theorem longAsU64_of_nonneg {v : Int} (h₀ : 0 ≤ v) (h₁ : v < 2 ^ 64) :
    longAsU64 v = v.toNat := by
  rw [longAsU64, Int.emod_eq_of_lt h₀ h₁]

/-- A negative `c_long` is a `u64` near `2 ^ 64`. -/
theorem longAsU64_of_neg {v : Int} (h₀ : -2 ^ 64 ≤ v) (h₁ : v < 0) :
    longAsU64 v = (v + 2 ^ 64).toNat := by
  have : v % 2 ^ 64 = v + 2 ^ 64 := by omega
  rw [longAsU64, this]

theorem longAsU32_of_nonneg {v : Int} (h₀ : 0 ≤ v) (h₁ : v < 2 ^ 32) :
    longAsU32 v = v.toNat := by
  rw [longAsU32, Int.emod_eq_of_lt h₀ h₁]

theorem u64AsLong_of_lt {n : Nat} (h : n < 2 ^ 63) : u64AsLong n = n := if_pos h

/-- A `u64` from `2 ^ 63` on is a negative `c_long`. -/
theorem u64AsLong_of_ge {n : Nat} (h : 2 ^ 63 ≤ n) : u64AsLong n = (n : Int) - 2 ^ 64 :=
  if_neg (Nat.not_lt.mpr h)

/-! ## §5 Conversions -/

/-- A valid `timespec` with a non-negative `tv_sec` is the duration it writes down. -/
theorem Timespec.toDuration_of_valid {ts : Timespec} (hs : 0 ≤ ts.tvSec ∧ ts.tvSec < 2 ^ 63)
    (hn : 0 ≤ ts.tvNsec ∧ ts.tvNsec < NANOS_PER_SEC) :
    ts.toDuration = .ok ⟨ts.tvSec.toNat, ts.tvNsec.toNat, by omega,
      by unfold NANOS_PER_SEC at *; omega⟩ := by
  rw [Timespec.toDuration, longAsU64_of_nonneg hs.1 (by omega),
    longAsU32_of_nonneg hn.1 (by unfold NANOS_PER_SEC at hn; omega), durationNew,
    Duration.new?_of_lt]
  rfl

theorem toDuration_ofDuration (d : Duration) (h : d.asSecs ≤ 2 ^ 63 - 1) :
    (Timespec.ofDuration d).toDuration = .ok d := by
  have hn := d.nanos_lt
  have hlong : u64AsLong d.asSecs = (d.secs : Int) :=
    u64AsLong_of_lt (Nat.lt_of_le_of_lt h (by decide))
  rw [Timespec.ofDuration, Timespec.toDuration_of_valid] <;> simp only [hlong, Duration.subsecNanos]
  · rfl
  · unfold Duration.asSecs at h
    omega
  · unfold NANOS_PER_SEC at *
    omega

/-! ## §6 Negative seconds -/

section Negative

variable {now : Duration}

/-- A deadline `k` seconds short of `2 ^ 64` overflows once the wall clock has passed `k`
    seconds. -/
theorem sleepDeadline_overflow {dur : Duration} {k : Nat} (hk : dur.secs + k = 2 ^ 64)
    (hwall : k * NANOS_PER_SEC ≤ now.toNanos) : sleepDeadline now dur = .error addOverflow := by
  have hsum : 2 ^ 64 * NANOS_PER_SEC ≤ now.toNanos + dur.toNanos :=
    calc 2 ^ 64 * NANOS_PER_SEC = dur.secs * NANOS_PER_SEC + k * NANOS_PER_SEC := by
          rw [← hk, Nat.add_mul]
      _ ≤ dur.secs * NANOS_PER_SEC + now.toNanos := Nat.add_le_add_left hwall _
      _ ≤ now.toNanos + dur.toNanos := by
          unfold Duration.toNanos
          omega
  rw [sleepDeadline, durationAdd, Duration.checkedAdd_eq_none_iff.mpr hsum]
  rfl

/-- A `timespec` with a negative `tv_sec` and a valid `tv_nsec` is a duration `|tv_sec|`
    seconds short of `2 ^ 64`. -/
theorem Timespec.toDuration_of_neg {ts : Timespec} (hs : -2 ^ 63 ≤ ts.tvSec ∧ ts.tvSec < 0)
    (hn : 0 ≤ ts.tvNsec ∧ ts.tvNsec < NANOS_PER_SEC) :
    ∃ dur, ts.toDuration = .ok dur ∧ dur.secs + (-ts.tvSec).toNat = 2 ^ 64 := by
  have hsec : longAsU64 ts.tvSec < 2 ^ 64 := by
    rw [longAsU64_of_neg (by omega) hs.2]
    omega
  have hnsec : longAsU32 ts.tvNsec < NANOS_PER_SEC := by
    rw [longAsU32_of_nonneg hn.1 (by unfold NANOS_PER_SEC at hn; omega)]
    omega
  have hk : longAsU64 ts.tvSec + (-ts.tvSec).toNat = 2 ^ 64 := by
    rw [longAsU64_of_neg (by omega) hs.2]
    omega
  refine ⟨⟨_, _, hsec, hnsec⟩, ?_, hk⟩
  rw [Timespec.toDuration, durationNew, Duration.new?_of_lt hsec hnsec]
  rfl

theorem sysNanosleep_of_neg {ts : Timespec} (hs : -2 ^ 63 ≤ ts.tvSec ∧ ts.tvSec < 0)
    (hn : 0 ≤ ts.tvNsec ∧ ts.tvNsec < NANOS_PER_SEC)
    (hwall : (-ts.tvSec).toNat * NANOS_PER_SEC ≤ now.toNanos) (remNull : Bool)
    (monoBefore monoAfter : Duration) :
    sysNanosleep (some ts) remNull monoBefore now monoAfter = .error addOverflow := by
  obtain ⟨dur, hdur, hk⟩ := Timespec.toDuration_of_neg hs hn
  have hcheck : ¬(ts.tvNsec < 0 ∨ ts.tvNsec > 999999999) := by
    unfold NANOS_PER_SEC at hn
    omega
  -- the deadline panics before the sleep; the binds are rewritten one at a time, since
  -- unfolding the deadline's overflow test in the kernel recurses through `2 ^ 64`
  rw [sysNanosleep, if_neg hcheck, hdur, except_ok_bind, sleepDeadline_overflow hk hwall,
    except_error_bind]

theorem selectDeadline_of_neg {tv : Timeval} (hs : -2 ^ 63 ≤ tv.tvSec ∧ tv.tvSec < 0)
    (hu : 0 ≤ tv.tvUsec ∧ tv.tvUsec < 1000000)
    (hwall : (-tv.tvSec).toNat * NANOS_PER_SEC ≤ now.toNanos) :
    selectDeadline now (some tv) = .error addOverflow := by
  -- in range, `tv_usec` makes the same duration as a `timespec` of its nanoseconds
  have hu32 : longAsU32 tv.tvUsec * 1000 % 2 ^ 32 = longAsU32 (tv.tvUsec * 1000) := by
    rw [longAsU32_of_nonneg hu.1 (by omega), longAsU32_of_nonneg (by omega) (by omega)]
    omega
  have heq : tv.toDuration = (⟨tv.tvSec, tv.tvUsec * 1000⟩ : Timespec).toDuration := by
    rw [Timeval.toDuration, hu32]
    rfl
  have hn : 0 ≤ tv.tvUsec * 1000 ∧ tv.tvUsec * 1000 < NANOS_PER_SEC := by
    unfold NANOS_PER_SEC
    omega
  obtain ⟨dur, hdur, hk⟩ := @Timespec.toDuration_of_neg ⟨tv.tvSec, tv.tvUsec * 1000⟩ hs hn
  rw [selectDeadline, heq, hdur, except_ok_bind, ← sleepDeadline, sleepDeadline_overflow hk hwall,
    except_error_bind]

end Negative

/-- Wall clock at `1700000000` seconds, in November 2023. -/
def wallNov2023 : Duration := ⟨1700000000, 0, by decide, Duration.nanosPerSec_pos⟩

/-- A `timespec` with `tv_sec = -1` becomes `2^64 - 1` seconds, so `nanosleep` and
    `select` add it to the wall clock and panic on the overflow; `tv_usec = 5000000`
    wraps in `u32` when scaled to nanoseconds. -/
theorem timeouts_panic_or_wrap :
    sysNanosleep (some ⟨-1, 0⟩) true Duration.zero wallNov2023 wallNov2023 =
        .error addOverflow ∧
      selectDeadline wallNov2023 (some ⟨-1, 0⟩) = .error addOverflow ∧
      Timeval.toDuration ⟨0, 5000000⟩ = .ok ⟨0, 705032704, by decide, by decide⟩ := by
  decide

end ArceOS.Posix
