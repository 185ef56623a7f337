import ArceOS.Lib.ByteOrder
import ArceOS.Posix.FdOps

/-!
# Socket Addresses

The conversions between Rust's `SocketAddrV4` and the C `sockaddr_in` of
`arceos_posix_api/src/imp/net.rs`, and the casts to and from the generic `sockaddr` that
`into_sockaddr` and `from_sockaddr` make. The C structures are the ones of `axlibc`'s
headers: `sockaddr_in` is a `u16` family, a `u16` port, the `u32` `in_addr` and eight
padding bytes, and `sockaddr` is a `u16` family and fourteen bytes, both sixteen bytes
long. A raw cast between them is the same sixteen bytes read with the other layout, on a
target of either byte order (`Endian`).

`From<SocketAddrV4>` stores the port with `to_be` and the address with `from_ne_bytes` of
the octets; `From<sockaddr_in>` undoes both with `from_be` and `to_ne_bytes`. On either
target the bytes in memory are in network order, and the conversions are inverse up to the
family and the padding, which the first one fixes.

## Main results

- `ofSockaddrIn_ofSocketAddrV4`, `ofSocketAddrV4_ofSockaddrIn`: the two conversions undo
  each other, up to the family and the padding;
- `toNe_sinPort`, `toNe_sinAddr`: the port's bytes are big-endian and the address's bytes
  are the octets, on either target;
- `fromSockaddr_intoSockaddr`: `from_sockaddr` reads back what `into_sockaddr` wrote;
- `sockaddr_round_trips`: the four together.
-/

namespace ArceOS.Posix

open ArceOS.Lib.LeBytes ArceOS.Lib.ByteOrder

/-! ## §1 The addresses -/

/-- `AF_INET`. -/
def AF_INET : Nat := 2

/-- `size_of::<sockaddr>()`. -/
def sizeOfSockaddr : Nat := 16

/-- `Ipv4Addr`, by its octets. -/
structure Ipv4Addr where
  octets : Vector UInt8 4
  deriving DecidableEq, Repr

/-- `SocketAddrV4`: `ip()` and `port()`. -/
structure SocketAddrV4 where
  ip : Ipv4Addr
  port : UInt16
  deriving DecidableEq, Repr

/-- `SocketAddr`; the IPv6 address is not modelled, as nothing here reads it. -/
inductive SocketAddr where
  | v4 (addr : SocketAddrV4)
  | v6
  deriving DecidableEq, Repr

/-- `struct sockaddr_in`, with `sin_addr.s_addr` as `sinAddr`. -/
structure SockaddrIn where
  sinFamily : UInt16
  sinPort : UInt16
  sinAddr : UInt32
  sinZero : Vector UInt8 8
  deriving DecidableEq, Repr

/-- `struct sockaddr`. -/
structure Sockaddr where
  saFamily : UInt16
  saData : Vector UInt8 14
  deriving DecidableEq, Repr

/-! ## §2 Layouts in memory -/

/-- The first `n` bytes of `bs`, as an array. -/
def bytesVec (bs : List UInt8) (n : Nat) : Vector UInt8 n := Vector.ofFn fun i => bs.getD i 0

namespace SockaddrIn

/-- The sixteen bytes of a `sockaddr_in` in memory. -/
def toBytes (e : Endian) (s : SockaddrIn) : List UInt8 :=
  toNe e s.sinFamily.toNat 2 ++ toNe e s.sinPort.toNat 2 ++ toNe e s.sinAddr.toNat 4 ++
    s.sinZero.toList

/-- A `sockaddr_in` read from memory: the fields at offsets `0`, `2`, `4` and `8`. -/
def ofBytes (e : Endian) (bs : List UInt8) : SockaddrIn :=
  ⟨UInt16.ofNat (ofNe e (bs.take 2)), UInt16.ofNat (ofNe e ((bs.drop 2).take 2)),
    UInt32.ofNat (ofNe e ((bs.drop 4).take 4)), bytesVec (bs.drop 8) 8⟩

end SockaddrIn

namespace Sockaddr

/-- The sixteen bytes of a `sockaddr` in memory. -/
def toBytes (e : Endian) (sa : Sockaddr) : List UInt8 :=
  toNe e sa.saFamily.toNat 2 ++ sa.saData.toList

/-- A `sockaddr` read from memory. -/
def ofBytes (e : Endian) (bs : List UInt8) : Sockaddr :=
  ⟨UInt16.ofNat (ofNe e (bs.take 2)), bytesVec (bs.drop 2) 14⟩

end Sockaddr

/-! ## §3 The conversions -/

/-- `impl From<SocketAddrV4> for sockaddr_in`. -/
def SockaddrIn.ofSocketAddrV4 (e : Endian) (addr : SocketAddrV4) : SockaddrIn where
  sinFamily := UInt16.ofNat AF_INET
  sinPort := UInt16.ofNat (toBe e 2 addr.port.toNat)
  -- `s_addr` is kept in network order: the octets are its native bytes
  sinAddr := UInt32.ofNat (ofNe e addr.ip.octets.toList)
  sinZero := Vector.replicate 8 0

/-- `impl From<sockaddr_in> for SocketAddrV4`. -/
def SocketAddrV4.ofSockaddrIn (e : Endian) (addr : SockaddrIn) : SocketAddrV4 :=
  ⟨⟨bytesVec (toNe e addr.sinAddr.toNat 4) 4⟩, UInt16.ofNat (fromBe e 2 addr.sinPort.toNat)⟩

/-- `into_sockaddr`: the `sockaddr` cast from the `sockaddr_in`, and its size; `none` is
    the panic on an IPv6 address. -/
def intoSockaddr (e : Endian) : SocketAddr → Option (Sockaddr × Nat)
  | .v4 addr => some (Sockaddr.ofBytes e ((SockaddrIn.ofSocketAddrV4 e addr).toBytes e),
      sizeOfSockaddr)
  | .v6 => none

/-- `from_sockaddr`: the pointer is `none` when null, and otherwise the `sockaddr` it points
    to, read again as a `sockaddr_in`. -/
def fromSockaddr (e : Endian) (addr : Option Sockaddr) (addrlen : Nat) :
    LinuxResult SocketAddr :=
  match addr with
  | none => .error .EFAULT
  | some sa =>
    if addrlen ≠ sizeOfSockaddr then .error .EINVAL
    else
      let mid := SockaddrIn.ofBytes e (sa.toBytes e)
      if mid.sinFamily ≠ UInt16.ofNat AF_INET then .error .EINVAL
      else .ok (.v4 (SocketAddrV4.ofSockaddrIn e mid))

/-! ## §4 Layouts read back -/

theorem toList_bytesVec {bs : List UInt8} {n : Nat} (h : n ≤ bs.length) :
    (bytesVec bs n).toList = bs.take n := by
  rw [bytesVec, Vector.toList_ofFn]
  apply List.ext_getElem
  · simp only [List.length_ofFn, List.length_take]
    omega
  · intro i hi _
    simp only [List.getElem_ofFn, List.getElem_take, List.getD_eq_getElem?_getD]
    rw [List.getElem?_eq_getElem (by simp at hi; omega)]
    rfl

theorem bytesVec_toList {n : Nat} (v : Vector UInt8 n) : bytesVec v.toList n = v := by
  apply Vector.toList_inj.mp
  rw [toList_bytesVec (by simp), List.take_of_length_le (by simp)]

/-- A field read from the first `n` bytes fits in `n` bytes. -/
theorem ofNe_take_lt (e : Endian) (bs : List UInt8) (n : Nat) : ofNe e (bs.take n) < 256 ^ n :=
  calc ofNe e (bs.take n) < 256 ^ (bs.take n).length := ofNe_lt e _
    _ ≤ 256 ^ n := Nat.pow_le_pow_right (by decide) (List.length_take_le n bs)

/-- A field of `n` bytes read from memory and written back gives the same bytes. -/
theorem toNe_ofNe_take (e : Endian) {bs : List UInt8} {n : Nat} (h : n ≤ bs.length) :
    toNe e (ofNe e (bs.take n)) n = bs.take n := by
  have hlen : (bs.take n).length = n := by simp; omega
  have := toNe_ofNe e (bs.take n)
  rwa [hlen] at this

theorem toNat_lt₂ (x : UInt16) : x.toNat < 256 ^ 2 := x.toNat_lt

theorem toNat_lt₄ (x : UInt32) : x.toNat < 256 ^ 4 := x.toNat_lt

theorem toNat_ofNat_ofNe_take₂ (e : Endian) (bs : List UInt8) :
    (UInt16.ofNat (ofNe e (bs.take 2))).toNat = ofNe e (bs.take 2) :=
  UInt16.toNat_ofNat_of_lt' (ofNe_take_lt e bs 2)

theorem toNat_ofNat_ofNe_take₄ (e : Endian) (bs : List UInt8) :
    (UInt32.ofNat (ofNe e (bs.take 4))).toNat = ofNe e (bs.take 4) :=
  UInt32.toNat_ofNat_of_lt' (ofNe_take_lt e bs 4)

namespace SockaddrIn

variable (e : Endian)

@[simp] theorem length_toBytes (s : SockaddrIn) : (s.toBytes e).length = 16 := by
  simp [toBytes]

/-- Reading a `sockaddr_in` back from its bytes gives it again. -/
theorem ofBytes_toBytes (s : SockaddrIn) : ofBytes e (s.toBytes e) = s := by
  have hfam := ofNe_toNe e (toNat_lt₂ s.sinFamily)
  have hport := ofNe_toNe e (toNat_lt₂ s.sinPort)
  have haddr := ofNe_toNe e (toNat_lt₄ s.sinAddr)
  simp [ofBytes, toBytes, List.drop_append, List.drop_eq_nil_of_le, hfam,
    hport, haddr, bytesVec_toList]

/-- Any sixteen bytes read as a `sockaddr_in` and written back are the same bytes. -/
theorem toBytes_ofBytes {bs : List UInt8} (h : bs.length = 16) : (ofBytes e bs).toBytes e = bs := by
  have hzero : (bs.drop 8).take 8 = bs.drop 8 := List.take_of_length_le (by simp; omega)
  rw [ofBytes, toBytes, toNat_ofNat_ofNe_take₂, toNat_ofNat_ofNe_take₂, toNat_ofNat_ofNe_take₄,
    toNe_ofNe_take e (by omega), toNe_ofNe_take e (by simp; omega),
    toNe_ofNe_take e (by simp; omega), toList_bytesVec (by simp; omega), hzero]
  -- the four fields are the bytes at offsets `0`, `2`, `4` and `8`, in order
  rw [← List.take_add, ← List.take_add, List.take_append_drop]

end SockaddrIn

namespace Sockaddr

variable (e : Endian)

@[simp] theorem length_toBytes (sa : Sockaddr) : (sa.toBytes e).length = 16 := by
  simp [toBytes]

/-- Any sixteen bytes read as a `sockaddr` and written back are the same bytes. -/
theorem toBytes_ofBytes {bs : List UInt8} (h : bs.length = 16) : (ofBytes e bs).toBytes e = bs := by
  have hdata : (bs.drop 2).take 14 = bs.drop 2 := List.take_of_length_le (by simp; omega)
  rw [ofBytes, toBytes, toNat_ofNat_ofNe_take₂, toNe_ofNe_take e (by omega),
    toList_bytesVec (by simp; omega), hdata, List.take_append_drop]

end Sockaddr

/-- The raw cast of a `sockaddr_in` to a `sockaddr` and back gives it again. -/
theorem SockaddrIn.ofBytes_sockaddr (e : Endian) (s : SockaddrIn) :
    SockaddrIn.ofBytes e ((Sockaddr.ofBytes e (s.toBytes e)).toBytes e) = s := by
  rw [Sockaddr.toBytes_ofBytes e (SockaddrIn.length_toBytes e s), SockaddrIn.ofBytes_toBytes]

/-! ## §5 The conversions undo each other -/

section Conversions

variable (e : Endian)

/-- The port `to_be` stores fits its field. -/
theorem toNat_sinPort (addr : SocketAddrV4) :
    (SockaddrIn.ofSocketAddrV4 e addr).sinPort.toNat = toBe e 2 addr.port.toNat :=
  UInt16.toNat_ofNat_of_lt' (toBe_lt e (toNat_lt₂ addr.port))

/-- The address `from_ne_bytes` stores fits its field. -/
theorem toNat_sinAddr (addr : SocketAddrV4) :
    (SockaddrIn.ofSocketAddrV4 e addr).sinAddr.toNat = ofNe e addr.ip.octets.toList := by
  have hlt := ofNe_lt e addr.ip.octets.toList
  rw [Vector.length_toList] at hlt
  exact UInt32.toNat_ofNat_of_lt' hlt

/-- On either target, the bytes of `sin_port` in memory are the port's big-endian bytes. -/
theorem toNe_sinPort (addr : SocketAddrV4) :
    toNe e (SockaddrIn.ofSocketAddrV4 e addr).sinPort.toNat 2 = toBeBytes addr.port.toNat 2 := by
  rw [toNat_sinPort, toNe_toBe]

/-- Port `8080` on a little-endian target: the stored word is byte-swapped. -/
example : (SockaddrIn.ofSocketAddrV4 .little ⟨⟨#v[127, 0, 0, 1]⟩, 8080⟩).sinPort = 0x901f := by
  decide

/-- On either target, the bytes of `sin_addr` in memory are the octets, in order. -/
theorem toNe_sinAddr (addr : SocketAddrV4) :
    toNe e (SockaddrIn.ofSocketAddrV4 e addr).sinAddr.toNat 4 = addr.ip.octets.toList := by
  have h := toNe_ofNe e addr.ip.octets.toList
  rwa [Vector.length_toList, ← toNat_sinAddr] at h

theorem ofSockaddrIn_ofSocketAddrV4 (addr : SocketAddrV4) :
    SocketAddrV4.ofSockaddrIn e (SockaddrIn.ofSocketAddrV4 e addr) = addr := by
  have hport : UInt16.ofNat (fromBe e 2 (SockaddrIn.ofSocketAddrV4 e addr).sinPort.toNat) =
      addr.port := by
    rw [toNat_sinPort, fromBe_toBe e (toNat_lt₂ addr.port), UInt16.ofNat_toNat]
  have hip : bytesVec (toNe e (SockaddrIn.ofSocketAddrV4 e addr).sinAddr.toNat 4) 4 =
      addr.ip.octets := by
    rw [toNe_sinAddr, bytesVec_toList]
  rw [SocketAddrV4.ofSockaddrIn, hport, hip]

/-- Back and forth, a `sockaddr_in` keeps its port and address and takes the family
    `AF_INET` and zero padding. -/
theorem ofSocketAddrV4_ofSockaddrIn (s : SockaddrIn) :
    SockaddrIn.ofSocketAddrV4 e (SocketAddrV4.ofSockaddrIn e s) =
      { s with sinFamily := UInt16.ofNat AF_INET, sinZero := Vector.replicate 8 0 } := by
  have hport : UInt16.ofNat (toBe e 2 (UInt16.ofNat (fromBe e 2 s.sinPort.toNat)).toNat) =
      s.sinPort := by
    rw [UInt16.toNat_ofNat_of_lt' (fromBe_lt e (toNat_lt₂ s.sinPort)),
      toBe_fromBe e (toNat_lt₂ s.sinPort), UInt16.ofNat_toNat]
  have haddr : UInt32.ofNat (ofNe e (bytesVec (toNe e s.sinAddr.toNat 4) 4).toList) = s.sinAddr := by
    rw [toList_bytesVec (by simp), List.take_of_length_le (by simp),
      ofNe_toNe e (toNat_lt₄ s.sinAddr), UInt32.ofNat_toNat]
  simp only [SockaddrIn.ofSocketAddrV4, SocketAddrV4.ofSockaddrIn, hport, haddr]

/-- `from_sockaddr` reads back what `into_sockaddr` wrote, with the length it returned. -/
theorem fromSockaddr_intoSockaddr (addr : SocketAddrV4) :
    (intoSockaddr e (.v4 addr)).map (fun r => fromSockaddr e (some r.1) r.2) =
      some (.ok (.v4 addr)) := by
  have hmid := SockaddrIn.ofBytes_sockaddr e (SockaddrIn.ofSocketAddrV4 e addr)
  simp only [intoSockaddr, Option.map_some, fromSockaddr, hmid, ne_eq, not_true_eq_false,
    if_false, ofSockaddrIn_ofSocketAddrV4]
  rfl

/-- What `from_sockaddr` accepts, `into_sockaddr` writes again as the same sixteen bytes with
    the padding zeroed, and the same length. -/
theorem intoSockaddr_fromSockaddr {sa : Sockaddr} {addrlen : Nat} {r : SocketAddr}
    (h : fromSockaddr e (some sa) addrlen = .ok r) :
    (intoSockaddr e r).map (fun p => (p.1.toBytes e, p.2)) =
      some ((sa.toBytes e).take 8 ++ List.replicate 8 0, addrlen) := by
  simp only [fromSockaddr] at h
  split_ifs at h with hlen hfam
  cases h
  set mid := SockaddrIn.ofBytes e (sa.toBytes e)
  have hfam' : mid.sinFamily = UInt16.ofNat AF_INET := not_not.mp hfam
  -- the padding is all `into_sockaddr` changes
  have hzeroed : (SockaddrIn.ofSocketAddrV4 e (SocketAddrV4.ofSockaddrIn e mid)).toBytes e =
      (sa.toBytes e).take 8 ++ List.replicate 8 0 := by
    rw [ofSocketAddrV4_ofSockaddrIn, ← hfam', ← SockaddrIn.toBytes_ofBytes e
      (Sockaddr.length_toBytes e sa)]
    simp only [SockaddrIn.toBytes, Vector.toList_replicate]
    rw [List.take_left' (by simp)]
  rw [intoSockaddr, Option.map_some, Sockaddr.toBytes_ofBytes e (SockaddrIn.length_toBytes e _),
    hzeroed, not_not.mp hlen]

end Conversions

/-- **Socket addresses round trip.** On either byte order, a `SocketAddrV4` survives the
    trip through `sockaddr_in`; the port and address bytes are stored in network order; a
    `sockaddr_in` of family `AF_INET` with zeroed padding survives the trip the other way;
    and `from_sockaddr` reads back what `into_sockaddr` wrote. -/
theorem sockaddr_round_trips (e : Endian) :
    (∀ addr : SocketAddrV4,
      SocketAddrV4.ofSockaddrIn e (SockaddrIn.ofSocketAddrV4 e addr) = addr) ∧
    (∀ addr : SocketAddrV4,
      toNe e (SockaddrIn.ofSocketAddrV4 e addr).sinPort.toNat 2 = toBeBytes addr.port.toNat 2 ∧
        toNe e (SockaddrIn.ofSocketAddrV4 e addr).sinAddr.toNat 4 = addr.ip.octets.toList) ∧
    (∀ s : SockaddrIn, s.sinFamily = UInt16.ofNat AF_INET → s.sinZero = Vector.replicate 8 0 →
      SockaddrIn.ofSocketAddrV4 e (SocketAddrV4.ofSockaddrIn e s) = s) ∧
    (∀ addr : SocketAddrV4,
      (intoSockaddr e (.v4 addr)).map (fun r => fromSockaddr e (some r.1) r.2) =
        some (.ok (.v4 addr))) := by
  refine ⟨ofSockaddrIn_ofSocketAddrV4 e, fun addr => ⟨toNe_sinPort e addr, toNe_sinAddr e addr⟩,
    fun s hfam hzero => ?_, fromSockaddr_intoSockaddr e⟩
  rw [ofSocketAddrV4_ofSockaddrIn, ← hfam, ← hzero]

end ArceOS.Posix
