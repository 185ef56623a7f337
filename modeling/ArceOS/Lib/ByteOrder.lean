import ArceOS.Lib.LeBytes

/-!
# Byte Orders

A `k`-byte word is kept in memory least significant byte first on a little-endian target
and most significant byte first on a big-endian one. `toNe` and `ofNe` write and read a
word in the target's own order, as `to_ne_bytes` and `from_ne_bytes` do; `swapBytes`
reverses the bytes of a word; `toBe` and `fromBe` swap the bytes on a little-endian target
and keep the word on a big-endian one.

On either target the native bytes of `toBe n` are the big-endian bytes of `n`
(`toNe_toBe`), `fromBe` undoes `toBe` and `toBe` undoes `fromBe`, and writing and reading
in the native order are inverse (`ofNe_toNe`, `toNe_ofNe`).
-/

namespace ArceOS.Lib.ByteOrder

open ArceOS.Lib.LeBytes

/-- The byte order of the target. -/
inductive Endian where
  | little
  | big
  deriving DecidableEq, Repr

/-- The `k` low bytes of `n`, most significant first. -/
def toBeBytes (n k : Nat) : List UInt8 := (toLe n k).reverse

/-- `to_ne_bytes`: the `k` low bytes of `n`, in the target's order. -/
def toNe : Endian → Nat → Nat → List UInt8
  | .little, n, k => toLe n k
  | .big, n, k => toBeBytes n k

/-- `from_ne_bytes`: the number whose bytes, in the target's order, are `bs`. -/
def ofNe : Endian → List UInt8 → Nat
  | .little, bs => ofLe bs
  | .big, bs => ofLe bs.reverse

/-- `swap_bytes` on a `k`-byte word. -/
def swapBytes (k n : Nat) : Nat := ofLe (toLe n k).reverse

/-- `to_be` on a `k`-byte word. -/
def toBe : Endian → Nat → Nat → Nat
  | .little, k, n => swapBytes k n
  | .big, _, n => n

/-- `from_be` on a `k`-byte word. -/
def fromBe : Endian → Nat → Nat → Nat
  | .little, k, n => swapBytes k n
  | .big, _, n => n

section

variable (e : Endian)

@[simp] theorem length_toNe (n k : Nat) : (toNe e n k).length = k := by
  cases e <;> simp [toNe, toBeBytes]

theorem ofNe_lt (bs : List UInt8) : ofNe e bs < 256 ^ bs.length := by
  cases e
  · exact ofLe_lt bs
  · rw [ofNe, ← List.length_reverse]
    exact ofLe_lt bs.reverse

/-- A word below `256 ^ k` survives being written in `k` native bytes and read back. -/
theorem ofNe_toNe {n k : Nat} (h : n < 256 ^ k) : ofNe e (toNe e n k) = n := by
  cases e
  · exact ofLe_toLe_of_lt h
  · rw [toNe, ofNe, toBeBytes, List.reverse_reverse, ofLe_toLe_of_lt h]

/-- Any native bytes survive being read and written back in as many bytes. -/
theorem toNe_ofNe (bs : List UInt8) : toNe e (ofNe e bs) bs.length = bs := by
  cases e
  · exact toLe_ofLe bs
  · have h := toLe_ofLe bs.reverse
    rw [List.length_reverse] at h
    rw [toNe, ofNe, toBeBytes, h, List.reverse_reverse]

end

theorem toLe_swapBytes (k n : Nat) : toLe (swapBytes k n) k = (toLe n k).reverse := by
  have h := toLe_ofLe (toLe n k).reverse
  rwa [List.length_reverse, length_toLe] at h

theorem swapBytes_lt (k n : Nat) : swapBytes k n < 256 ^ k := by
  have h := ofLe_lt (toLe n k).reverse
  rwa [List.length_reverse, length_toLe] at h

theorem swapBytes_swapBytes {k n : Nat} (h : n < 256 ^ k) : swapBytes k (swapBytes k n) = n := by
  rw [swapBytes, toLe_swapBytes, List.reverse_reverse, ofLe_toLe_of_lt h]

section

variable (e : Endian) {k n : Nat}

/-- On either target, the native bytes of `to_be(n)` are the big-endian bytes of `n`. -/
theorem toNe_toBe : toNe e (toBe e k n) k = toBeBytes n k := by
  cases e
  · exact toLe_swapBytes k n
  · rfl

theorem toBe_lt (h : n < 256 ^ k) : toBe e k n < 256 ^ k := by
  cases e
  · exact swapBytes_lt k n
  · exact h

theorem fromBe_lt (h : n < 256 ^ k) : fromBe e k n < 256 ^ k := by
  cases e
  · exact swapBytes_lt k n
  · exact h

theorem fromBe_toBe (h : n < 256 ^ k) : fromBe e k (toBe e k n) = n := by
  cases e
  · exact swapBytes_swapBytes h
  · rfl

theorem toBe_fromBe (h : n < 256 ^ k) : toBe e k (fromBe e k n) = n := by
  cases e
  · exact swapBytes_swapBytes h
  · rfl

end

end ArceOS.Lib.ByteOrder
