import Mathlib

/-!
# Ticks and Nanoseconds on x86

The clock of `axhal/src/platform/x86_pc/time.rs` counts TSC ticks since `INIT_TICK` and
converts them with `CPU_FREQ_MHZ`, the ticks in a microsecond: `ticks * 1_000 /
CPU_FREQ_MHZ` nanoseconds, and `nanos * CPU_FREQ_MHZ / 1_000` ticks. Both multiply before
they divide, in `u64`; a release build wraps the product modulo `2 ^ 64` (a debug build
panics there instead), so the two functions are one, `mulDivU64`, at different operands.
The frequency is a positive `u64`: `init_early` replaces it only by a positive value.

While the product fits, the conversions are the exact quotients and `monotonic_time_nanos`
does not decrease along any run of TSC readings. At `18446744073709552` ticks, the first
whose product reaches `2 ^ 64` (71 days of uptime at 3 GHz), the clock falls back to
almost nothing.

## Main results

- `ticksToNanos_of_lt`, `nanosToTicks_of_lt`: the exact quotients while the product fits;
- `monotonicTimeNanos_monotone`: over a run of non-decreasing TSC readings less than
  `2 ^ 64 / 1000` ticks past `INIT_TICK`, the clock never decreases;
- `monotonicTimeNanos_falls_back`: one tick later, for every frequency up to `2 ^ 63` MHz,
  it is below what it read a tick before;
- `clock_falls_back_at_wrap`: the readings at 3 GHz on both sides of the wrap.
-/

namespace ArceOS.Hal

/-- `CPU_FREQ_MHZ`: a positive `u64`. -/
structure CpuFreqMhz where
  mhz : Nat
  pos : 0 < mhz
  lt : mhz < 2 ^ 64
  deriving Repr

/-- `x * mul / div` on `u64`s, the product wrapping. -/
def mulDivU64 (x mul div : Nat) : Nat := x * mul % 2 ^ 64 / div

/-- `current_ticks()`: `_rdtsc() - INIT_TICK`, the TSC reading `tsc`, wrapping in `u64`. -/
def currentTicks (initTick tsc : Nat) : Nat := (tsc + 2 ^ 64 - initTick) % 2 ^ 64

/-- `ticks_to_nanos(ticks)`: `ticks * 1_000 / CPU_FREQ_MHZ`. -/
def ticksToNanos (f : CpuFreqMhz) (ticks : Nat) : Nat := mulDivU64 ticks 1000 f.mhz

/-- `nanos_to_ticks(nanos)`: `nanos * CPU_FREQ_MHZ / 1_000`. -/
def nanosToTicks (f : CpuFreqMhz) (nanos : Nat) : Nat := mulDivU64 nanos f.mhz 1000

/-- `monotonic_time_nanos()`: `ticks_to_nanos(current_ticks())`. -/
def monotonicTimeNanos (f : CpuFreqMhz) (initTick tsc : Nat) : Nat :=
  ticksToNanos f (currentTicks initTick tsc)

/-! ## The product while it fits -/

theorem mulDivU64_of_lt {x mul : Nat} (h : x * mul < 2 ^ 64) (div : Nat) :
    mulDivU64 x mul div = x * mul / div := by
  rw [mulDivU64, Nat.mod_eq_of_lt h]

/-- The quotient grows with `x` as long as the larger product fits. -/
theorem mulDivU64_le_of_le {x y mul : Nat} (hxy : x ≤ y) (hy : y * mul < 2 ^ 64) (div : Nat) :
    mulDivU64 x mul div ≤ mulDivU64 y mul div := by
  have hx : x * mul < 2 ^ 64 := Nat.lt_of_le_of_lt (Nat.mul_le_mul_right mul hxy) hy
  rw [mulDivU64_of_lt hx, mulDivU64_of_lt hy]
  exact Nat.div_le_div_right (Nat.mul_le_mul_right mul hxy)

/-- Past `2 ^ 64` and below twice that, the product loses `2 ^ 64`. -/
theorem mulDivU64_of_wrap {x mul : Nat} (h₁ : 2 ^ 64 ≤ x * mul) (h₂ : x * mul < 2 * 2 ^ 64)
    (div : Nat) : mulDivU64 x mul div = (x * mul - 2 ^ 64) / div := by
  have hmod : x * mul % 2 ^ 64 = x * mul - 2 ^ 64 := by omega
  rw [mulDivU64, hmod]

theorem ticksToNanos_of_lt (f : CpuFreqMhz) {ticks : Nat} (h : ticks * 1000 < 2 ^ 64) :
    ticksToNanos f ticks = ticks * 1000 / f.mhz :=
  mulDivU64_of_lt h _

theorem nanosToTicks_of_lt (f : CpuFreqMhz) {nanos : Nat} (h : nanos * f.mhz < 2 ^ 64) :
    nanosToTicks f nanos = nanos * f.mhz / 1000 :=
  mulDivU64_of_lt h _

/-! ## Runs of the clock -/

/-- Less than `2 ^ 64` ticks past `INIT_TICK`, the tick count is the difference. -/
theorem currentTicks_of_le {initTick tsc : Nat} (h₁ : initTick ≤ tsc)
    (h₂ : tsc - initTick < 2 ^ 64) : currentTicks initTick tsc = tsc - initTick := by
  rw [currentTicks]
  omega

section Run

variable (f : CpuFreqMhz) {initTick : Nat}

/-- One reading after another: a later reading within the range reads no less. -/
theorem monotonicTimeNanos_le {a b : Nat} (h₀ : initTick ≤ a) (hab : a ≤ b)
    (hb : (b - initTick) * 1000 < 2 ^ 64) :
    monotonicTimeNanos f initTick a ≤ monotonicTimeNanos f initTick b := by
  have ha : a - initTick < 2 ^ 64 := by omega
  have hb' : b - initTick < 2 ^ 64 := by omega
  rw [monotonicTimeNanos, monotonicTimeNanos, currentTicks_of_le h₀ ha,
    currentTicks_of_le (Nat.le_trans h₀ hab) hb']
  exact mulDivU64_le_of_le (Nat.sub_le_sub_right hab _) hb _

/-- Along a run of TSC readings that never decrease and stay within `2 ^ 64 / 1000` ticks
    of `INIT_TICK`, `monotonic_time_nanos` never decreases. -/
theorem monotonicTimeNanos_monotone {tsc : Nat → Nat} (hmono : Monotone tsc)
    (hinit : initTick ≤ tsc 0) (hwrap : ∀ n, (tsc n - initTick) * 1000 < 2 ^ 64) :
    Monotone fun n => monotonicTimeNanos f initTick (tsc n) := by
  intro m n hmn
  exact monotonicTimeNanos_le f (Nat.le_trans hinit (hmono (Nat.zero_le m))) (hmono hmn)
    (hwrap n)

/-- The first tick count whose product with `1000` reaches `2 ^ 64` reads less than the
    tick before it, at every frequency up to `2 ^ 63` MHz. -/
theorem monotonicTimeNanos_falls_back (hf : f.mhz ≤ 2 ^ 63) :
    monotonicTimeNanos f initTick (initTick + 18446744073709552) <
      monotonicTimeNanos f initTick (initTick + 18446744073709551) := by
  have hwrapped : 18446744073709552 * 1000 - 2 ^ 64 = 384 := by decide
  have hafter : monotonicTimeNanos f initTick (initTick + 18446744073709552) = 384 / f.mhz := by
    rw [monotonicTimeNanos, currentTicks_of_le (Nat.le_add_right _ _) (by omega),
      Nat.add_sub_cancel_left, ticksToNanos, mulDivU64_of_wrap (by decide) (by decide), hwrapped]
  have hbefore : monotonicTimeNanos f initTick (initTick + 18446744073709551) =
      18446744073709551000 / f.mhz := by
    rw [monotonicTimeNanos, currentTicks_of_le (Nat.le_add_right _ _) (by omega),
      Nat.add_sub_cancel_left, ticksToNanos_of_lt _ (by decide)]
  -- a multiple of the frequency lies between `384` and the reading before the wrap
  have hstep : (384 / f.mhz + 1) * f.mhz ≤ 18446744073709551000 :=
    calc (384 / f.mhz + 1) * f.mhz = 384 / f.mhz * f.mhz + f.mhz := Nat.succ_mul _ _
      _ ≤ 384 + 2 ^ 63 := Nat.add_le_add (Nat.div_mul_le_self 384 f.mhz) hf
      _ ≤ 18446744073709551000 := by decide
  rw [hafter, hbefore]
  exact (Nat.le_div_iff_mul_le f.pos).mpr hstep

end Run

/-- A TSC at 3 GHz. -/
def cpu3GHz : CpuFreqMhz := ⟨3000, by decide, by decide⟩

/-- At 3 GHz the product `ticks * 1000` wraps after about 71 days of ticks, so
    `monotonic_time_nanos` falls from `6148914691236517` back to `0` in one tick, and
    `nanos_to_ticks` wraps `n * 3000` where the exact answer fits in `u64`. -/
theorem clock_falls_back_at_wrap :
    monotonicTimeNanos cpu3GHz 0 18446744073709551 = 6148914691236517 ∧
      monotonicTimeNanos cpu3GHz 0 18446744073709552 = 0 ∧
      18446744073709552 * 1000 / 3000 = 6148914691236517 ∧
      nanosToTicks cpu3GHz 6148914691236518 = 2 ∧
      6148914691236518 * 3000 / 1000 = 18446744073709554 ∧
      18446744073709554 < 2 ^ 64 := by
  decide

end ArceOS.Hal
