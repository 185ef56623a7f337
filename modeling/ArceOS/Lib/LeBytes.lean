import Mathlib

/-!
# Little-Endian Encodings

A number kept in `k` bytes, least significant byte first, as machine words are kept in
memory on little-endian targets: `toLe n k` writes `n`, `ofLe` reads it back. Writing
keeps `n` modulo `256 ^ k`, and reading any `k` bytes gives a number below `256 ^ k`.
-/

namespace ArceOS.Lib.LeBytes

/-- The `k` low bytes of `n`, least significant first. -/
def toLe (n : Nat) : Nat → List UInt8
  | 0 => []
  | k + 1 => UInt8.ofNat (n % 256) :: toLe (n / 256) k

/-- The number whose bytes, least significant first, are `bs`. -/
def ofLe : List UInt8 → Nat
  | [] => 0
  | b :: bs => b.toNat + 256 * ofLe bs

@[simp] theorem length_toLe (n k : Nat) : (toLe n k).length = k := by
  induction k generalizing n with
  | zero => rfl
  | succ k ih => simp [toLe, ih]

/-- Reading back `k` written bytes gives the number modulo `256 ^ k`. -/
theorem ofLe_toLe (n k : Nat) : ofLe (toLe n k) = n % 256 ^ k := by
  induction k generalizing n with
  | zero => simp [toLe, ofLe, Nat.mod_one]
  | succ k ih =>
    have hbyte : (UInt8.ofNat (n % 256)).toNat = n % 256 := by
      simp
    rw [toLe, ofLe, hbyte, ih, Nat.pow_succ, Nat.mul_comm (256 ^ k) 256, Nat.mod_mul]

theorem ofLe_lt (bs : List UInt8) : ofLe bs < 256 ^ bs.length := by
  induction bs with
  | nil => simp [ofLe]
  | cons b bs ih =>
    have hb := b.toNat_lt
    simp only [ofLe, List.length_cons, Nat.pow_succ]
    -- the low byte and `256` times the rest stay below `256 * 256 ^ bs.length`
    have : 256 * ofLe bs + 256 ≤ 256 ^ bs.length * 256 := by
      rw [Nat.mul_comm (256 ^ bs.length)]
      exact Nat.mul_le_mul_left 256 ih
    omega

/-- A number below `256 ^ k` survives being written to `k` bytes and read back. -/
theorem ofLe_toLe_of_lt {n k : Nat} (h : n < 256 ^ k) : ofLe (toLe n k) = n := by
  rw [ofLe_toLe, Nat.mod_eq_of_lt h]

/-- Any bytes survive being read and written back in as many bytes. -/
theorem toLe_ofLe (bs : List UInt8) : toLe (ofLe bs) bs.length = bs := by
  induction bs with
  | nil => rfl
  | cons b bs ih =>
    have hb := b.toNat_lt
    -- the low byte is `b`, and the rest is the number of the other bytes
    have hmod : (b.toNat + 256 * ofLe bs) % 256 = b.toNat := by omega
    have hdiv : (b.toNat + 256 * ofLe bs) / 256 = ofLe bs := by omega
    rw [ofLe, List.length_cons, toLe, hmod, hdiv, ih, UInt8.ofNat_toNat]

end ArceOS.Lib.LeBytes
