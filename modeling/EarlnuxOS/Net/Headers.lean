import EarlnuxOS.Foundation.ByteRuns
import EarlnuxOS.Foundation.LittleEndian

/-!
# Packet headers

The constants and conversions of `include/net/net.h`, and a received frame with
its fields.  The headers are packed structures laid over the bytes of a frame,
so a field is read and stored with its low byte first, whatever it means on the
wire.
-/

namespace EarlnuxOS
namespace Net

open Foundation

/-!
# Constants
-/

def ethAlen : Nat := 6

def ethMtu : UInt32 := 1500

def ethFrameMax : Nat := 1518

def ethTypeArp : UInt16 := 0x0806
def ethTypeIp : UInt16 := 0x0800

def ipProtoIcmp : UInt8 := 1
def ipProtoTcp : UInt8 := 6
def ipProtoUdp : UInt8 := 17

def ip4DfFlag : UInt16 := 0x4000

def ip4DefaultTtl : UInt8 := 64

def icmpEchoReply : UInt8 := 0
def icmpEchoRequest : UInt8 := 8

def arpRequest : UInt16 := 1
def arpReply : UInt16 := 2

def arpHwEth : UInt16 := 1

def netifUp : UInt32 := 1

def ethHeaderSize : UInt32 := 14

def ip4HeaderSize : UInt32 := 20

def icmpHeaderSize : UInt32 := 8

def arpPacketSize : UInt32 := 28

/-!
# Addresses and byte order
-/

def ip4 (a b c d : UInt8) : UInt32 :=
  (a.toUInt32 <<< 24) ||| (b.toUInt32 <<< 16) ||| (c.toUInt32 <<< 8) |||
    d.toUInt32

def ip4Broadcast : UInt32 := ip4 255 255 255 255

def htons (v : UInt16) : UInt16 := (v >>> 8) ||| (v <<< 8)

def ntohs (v : UInt16) : UInt16 := htons v

def bytes16 (v : UInt16) : List UInt8 := leBytes 2 v.toNat

def bytes32 (v : UInt32) : List UInt8 := leBytes 4 v.toNat

structure Mac where
  bytes : List UInt8
  size : bytes.length = ethAlen
deriving DecidableEq

def ethBroadcast : Mac := ⟨List.replicate 6 0xFF, rfl⟩

/-!
# Received frames
-/

/--
A received frame: the memory from the frame pointer on, and the length the
driver reports.  The bytes from `len` on are whatever follows the frame.
-/
structure Frame where
  byte : Memory
  len : UInt32

namespace Frame

def bytes (f : Frame) (start count : Nat) : List UInt8 :=
  readBytes f.byte start count

def u16 (f : Frame) (start : Nat) : UInt16 :=
  UInt16.ofNat (leNum (f.bytes start 2))

def u32 (f : Frame) (start : Nat) : UInt32 :=
  UInt32.ofNat (leNum (f.bytes start 4))

/-- The frame with the given bytes, and zeros behind it. -/
def ofBytes (bs : List UInt8) : Frame where
  byte := fun i => bs.getD i 0
  len := UInt32.ofNat bs.length

end Frame

/-!
# Fields and their bytes
-/

@[simp] theorem length_bytes16 (v : UInt16) : (bytes16 v).length = 2 :=
  length_leBytes _ _

@[simp] theorem length_bytes32 (v : UInt32) : (bytes32 v).length = 4 :=
  length_leBytes _ _

@[simp] theorem Mac.length_bytes (mac : Mac) : mac.bytes.length = 6 :=
  mac.size

@[simp] theorem Frame.length_bytes (f : Frame) (start count : Nat) :
    (f.bytes start count).length = count :=
  length_readBytes _ _ _

theorem ofNat_leNum_bytes16 (v : UInt16) :
    UInt16.ofNat (leNum (bytes16 v)) = v := by
  unfold bytes16
  rw [leNum_leBytes_of_lt v.toNat_lt, UInt16.ofNat_toNat]

theorem ofNat_leNum_bytes32 (v : UInt32) :
    UInt32.ofNat (leNum (bytes32 v)) = v := by
  unfold bytes32
  rw [leNum_leBytes_of_lt v.toNat_lt, UInt32.ofNat_toNat]

theorem Frame.u16_eq_of_bytes {f : Frame} {start : Nat} {v : UInt16}
    (h : f.bytes start 2 = bytes16 v) : f.u16 start = v := by
  unfold Frame.u16
  rw [h, ofNat_leNum_bytes16]

theorem Frame.u32_eq_of_bytes {f : Frame} {start : Nat} {v : UInt32}
    (h : f.bytes start 4 = bytes32 v) : f.u32 start = v := by
  unfold Frame.u32
  rw [h, ofNat_leNum_bytes32]

theorem Frame.u32_eq_iff {f : Frame} {start : Nat} {v : UInt32} :
    f.u32 start = v <-> f.bytes start 4 = bytes32 v := by
  constructor
  · intro h
    have hlt : leNum (f.bytes start 4) < 2 ^ 32 := by
      have hbound := leNum_lt (f.bytes start 4)
      rw [f.length_bytes] at hbound
      exact hbound
    apply leNum_inj (by rw [f.length_bytes, length_bytes32])
    unfold bytes32
    rw [leNum_leBytes_of_lt v.toNat_lt, ← h]
    exact (UInt32.toNat_ofNat_of_lt' hlt).symm
  · exact Frame.u32_eq_of_bytes

theorem toNat_htons (v : UInt16) :
    (htons v).toNat = v.toNat / 256 + 256 * (v.toNat % 256) := by
  have hv := v.toNat_lt
  have hhigh : (v >>> 8).toNat = v.toNat / 256 := by
    rw [UInt16.toNat_shiftRight]
    exact Nat.shiftRight_eq_div_pow v.toNat 8
  have hlow : (v <<< 8).toNat = 256 * (v.toNat % 256) := by
    rw [UInt16.toNat_shiftLeft]
    show v.toNat <<< 8 % 2 ^ 16 = _
    rw [Nat.shiftLeft_eq]
    omega
  unfold htons
  rw [UInt16.toNat_or, hhigh, hlow, Nat.or_comm, Nat.add_comm]
  exact (Nat.two_pow_add_eq_or_of_lt (i := 8) (by omega) _).symm

theorem ntohs_htons (v : UInt16) : ntohs (htons v) = v := by
  have hv := v.toNat_lt
  apply UInt16.toNat_inj.mp
  unfold ntohs
  rw [toNat_htons, toNat_htons]
  omega

theorem toNat_ip4 (a b c d : UInt8) :
    (ip4 a b c d).toNat =
      2 ^ 24 * a.toNat + 2 ^ 16 * b.toNat + 2 ^ 8 * c.toNat + d.toNat := by
  have ha := a.toNat_lt
  have hb := b.toNat_lt
  have hc := c.toNat_lt
  have hd := d.toNat_lt
  have hshift : forall (x : UInt8) (k : UInt32) (n : Nat), k.toNat = n ->
      n ≤ 24 -> (x.toUInt32 <<< k).toNat = 2 ^ n * x.toNat := by
    intro x k n hk hn
    have hx := x.toNat_lt
    have hpow : 2 ^ n ≤ 2 ^ 24 := Nat.pow_le_pow_right (by decide) hn
    have hle : 2 ^ n * x.toNat ≤ 2 ^ 24 * x.toNat := Nat.mul_le_mul_right _ hpow
    rw [UInt32.toNat_shiftLeft, hk, UInt8.toNat_toUInt32,
      Nat.mod_eq_of_lt (by omega : n < 32), Nat.shiftLeft_eq, Nat.mul_comm,
      Nat.mod_eq_of_lt (by omega)]
  unfold ip4
  rw [UInt32.toNat_or, UInt32.toNat_or, UInt32.toNat_or,
    hshift a 24 24 rfl (by decide), hshift b 16 16 rfl (by decide),
    hshift c 8 8 rfl (by decide), UInt8.toNat_toUInt32,
    ← Nat.two_pow_add_eq_or_of_lt (i := 24) (by omega),
    show 2 ^ 24 * a.toNat + 2 ^ 16 * b.toNat =
      2 ^ 16 * (2 ^ 8 * a.toNat + b.toNat) by omega,
    ← Nat.two_pow_add_eq_or_of_lt (i := 16) (by omega),
    show 2 ^ 16 * (2 ^ 8 * a.toNat + b.toNat) + 2 ^ 8 * c.toNat =
      2 ^ 8 * (2 ^ 16 * a.toNat + 2 ^ 8 * b.toNat + c.toNat) by omega,
    ← Nat.two_pow_add_eq_or_of_lt (i := 8) (by omega)]

/-- A host-order address lies in a frame with its last octet first. -/
theorem bytes32_ip4 (a b c d : UInt8) :
    bytes32 (ip4 a b c d) = [d, c, b, a] := by
  apply leNum_inj (length_bytes32 _)
  have ha := a.toNat_lt
  have hlt := (ip4 a b c d).toNat_lt
  unfold bytes32
  rw [leNum_leBytes_of_lt hlt, toNat_ip4]
  simp only [leNum_cons, leNum_nil]
  omega

end Net
end EarlnuxOS
