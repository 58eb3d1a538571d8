import EarlnuxOS.Net.Stack

/-!
# Frames sent

The bytes `ip4_send` and `eth_send` hand to the driver, as one list: the two
headers and the payload.
-/

namespace EarlnuxOS
namespace Net

open Foundation

theorem Static.write_next {b : Static} {as : List UInt8}
    (h : HoldsAt b.byte 0 as) (start : Nat) (bs : List UInt8)
    (hstart : start = as.length) :
    HoldsAt (b.write start bs).byte 0 (as ++ bs) := by
  have hnext := h.writeBytes_next bs
  rw [Nat.zero_add, ← hstart] at hnext
  exact hnext

/-!
# Headers
-/

def ethHeader (dst src : Mac) (type : UInt16) : List UInt8 :=
  dst.bytes ++ src.bytes ++ bytes16 (htons type)

def ip4Header (src dst : UInt32) (proto : UInt8) (len : UInt16) :
    List UInt8 :=
  [0x45, 0] ++ bytes16 (htons (ip4HeaderSize + len.toUInt32).toUInt16) ++
    bytes16 (htons 0) ++ bytes16 (htons ip4DfFlag) ++
    [ip4DefaultTtl, proto] ++ bytes16 0 ++ bytes32 src ++ bytes32 dst

@[simp] theorem length_ethHeader (dst src : Mac) (type : UInt16) :
    (ethHeader dst src type).length = 14 := by
  simp [ethHeader]

@[simp] theorem length_ip4Header (src dst : UInt32) (proto : UInt8)
    (len : UInt16) : (ip4Header src dst proto len).length = 20 := by
  simp [ip4Header]

def ip4Frame (mac : Mac) (src dst : UInt32) (proto : UInt8) (data : Memory)
    (len : UInt16) : List UInt8 :=
  ethHeader ethBroadcast mac ethTypeIp ++ ip4Header src dst proto len ++
    readBytes data 0 len.toNat

theorem length_ip4Frame (mac : Mac) (src dst : UInt32) (proto : UInt8)
    (data : Memory) (len : UInt16) :
    (ip4Frame mac src dst proto data len).length = 34 + len.toNat := by
  simp [ip4Frame]
  omega

/-!
# Sending
-/

structure CanSend (n : Netif) : Prop where
  driver : n.transmit.isSome
  up : n.flags &&& netifUp ≠ 0

theorem canSend_upIface (addr : UInt32) : CanSend (upIface addr) :=
  ⟨rfl, show netifUp &&& netifUp ≠ 0 by decide⟩

theorem sent_netifSend {s : Stack} {i : Nat} (h : CanSend (s.ifaces i))
    (frame : Memory) (len : UInt32) :
    (netifSend s (some i) frame len).1.sent =
      s.sent ++ [⟨i, readBytes frame 0 len.toNat⟩] := by
  rcases Option.isSome_iff_exists.mp h.driver with ⟨transmit, htransmit⟩
  unfold netifSend
  dsimp only
  rw [htransmit]
  dsimp only
  rw [if_neg h.up]
  rfl

theorem sent_ethSend {s : Stack} {i : Nat} (h : CanSend (s.ifaces i))
    (dstMac : Mac) (type : UInt16) {data : Memory} {len : UInt32}
    {bs : List UInt8} (hlen : len.toNat ≤ 1500)
    (hdata : readBytes data 0 len.toNat = bs) :
    (ethSend s (some i) dstMac type data len).1.sent =
      s.sent ++ [⟨i, ethHeader dstMac (s.ifaces i).mac type ++ bs⟩] := by
  have hsmall : ¬ ethMtu < len := fun hlt =>
    Nat.not_lt.mpr hlen (UInt32.lt_iff_toNat_lt.mp hlt)
  have hsum : (len + ethHeaderSize).toNat = 14 + len.toNat := by
    rw [UInt32.toNat_add, Nat.add_comm]
    exact Nat.mod_eq_of_lt (show 14 + len.toNat < 2 ^ 32 by omega)
  have hdst := Static.write_next (holdsAt_nil s.ethBuffer.byte 0) 0
    dstMac.bytes rfl
  have hsrc := Static.write_next hdst 6 (s.ifaces i).mac.bytes (by simp)
  have htype := Static.write_next hsrc 12 (bytes16 (htons type)) (by simp)
  have hframe := Static.write_next htype 14 (readBytes data 0 len.toNat) (by simp)
  have hread := hframe.readBytes (n := 14 + len.toNat) (by simp; omega)
  unfold ethSend
  dsimp only
  rw [if_neg hsmall]
  refine (sent_netifSend (i := i) ?_ _ _).trans ?_
  · exact h
  · rw [hsum, hread, hdata]
    rfl

theorem sent_ip4Send {s : Stack} {i : Nat} (hdefault : s.defaultIface = some i)
    (h : CanSend (s.ifaces i)) (dst : UInt32) (proto : UInt8) (data : Memory)
    {len : UInt16} (hlen : len.toNat ≤ 1480) :
    (ip4Send s dst proto data len).1.sent =
      s.sent ++ [⟨i, ip4Frame (s.ifaces i).mac (s.ifaces i).addr dst proto data
        len⟩] := by
  have hsum : (ip4HeaderSize + len.toUInt32).toNat = 20 + len.toNat := by
    rw [UInt32.toNat_add, UInt16.toNat_toUInt32]
    exact Nat.mod_eq_of_lt (show 20 + len.toNat < 2 ^ 32 by omega)
  have h0 := Static.write_next (holdsAt_nil s.ipBuffer.byte 0) 0
    [((4 : UInt8) <<< 4) ||| 5] rfl
  have h1 := Static.write_next h0 1 [0] rfl
  have h2 := Static.write_next h1 2
    (bytes16 (htons (ip4HeaderSize + len.toUInt32).toUInt16)) rfl
  have h4 := Static.write_next h2 4 (bytes16 (htons 0)) (by simp)
  have h6 := Static.write_next h4 6 (bytes16 (htons ip4DfFlag)) (by simp)
  have h8 := Static.write_next h6 8 [ip4DefaultTtl] (by simp)
  have h9 := Static.write_next h8 9 [proto] (by simp)
  have h10 := Static.write_next h9 10 (bytes16 0) (by simp)
  have h12 := Static.write_next h10 12 (bytes32 (s.ifaces i).addr) (by simp)
  have h16 := Static.write_next h12 16 (bytes32 dst) (by simp)
  have h20 := Static.write_next h16 20 (readBytes data 0 len.toNat) (by simp)
  have hread := h20.readBytes (n := 20 + len.toNat) (by simp; omega)
  rw [← hsum] at hread
  unfold ip4Send netifGetDefault
  rw [hdefault]
  dsimp only
  refine (sent_ethSend (i := i) ?_ _ _ (by omega) hread).trans ?_
  · exact h
  · have hfirst : ((4 : UInt8) <<< 4) ||| 5 = 0x45 := by decide
    rw [hfirst]
    simp only [ip4Frame, ip4Header, List.append_assoc, List.nil_append,
      List.cons_append]

/-!
# Nothing sent
-/

theorem netifSend_of_not_canSend {s : Stack} {i : Nat}
    (h : ¬ CanSend (s.ifaces i)) (frame : Memory) (len : UInt32) :
    netifSend s (some i) frame len = (s, -1) := by
  unfold netifSend
  dsimp only
  cases htransmit : (s.ifaces i).transmit with
  | none => rfl
  | some transmit =>
      dsimp only
      split
      · rfl
      · rename_i hup
        exact absurd ⟨by rw [htransmit]; rfl, hup⟩ h

theorem sent_ethSend_of_not_canSend {s : Stack} {i : Nat}
    (h : ¬ CanSend (s.ifaces i)) (dstMac : Mac) (type : UInt16)
    (data : Memory) (len : UInt32) :
    (ethSend s (some i) dstMac type data len).1.sent = s.sent := by
  unfold ethSend
  dsimp only
  split
  · rfl
  · refine (congrArg (fun r => r.1.sent)
      (netifSend_of_not_canSend (i := i) ?_ _ _)).trans ?_
    · exact h
    · rfl

theorem sent_ip4Send_of_not_canSend {s : Stack} {i : Nat}
    (hdefault : s.defaultIface = some i) (h : ¬ CanSend (s.ifaces i))
    (dst : UInt32) (proto : UInt8) (data : Memory) (len : UInt16) :
    (ip4Send s dst proto data len).1.sent = s.sent := by
  unfold ip4Send netifGetDefault
  rw [hdefault]
  refine (sent_ethSend_of_not_canSend (i := i) ?_ _ _ _ _).trans ?_
  · exact h
  · rfl

theorem sent_ip4Send_cases (s : Stack) (dst : UInt32) (proto : UInt8)
    (data : Memory) {len : UInt16} (hlen : len.toNat ≤ 1480) :
    (ip4Send s dst proto data len).1.sent = s.sent ∨
      exists i, s.defaultIface = some i ∧
        (ip4Send s dst proto data len).1.sent = s.sent ++
          [⟨i, ip4Frame (s.ifaces i).mac (s.ifaces i).addr dst proto data
            len⟩] := by
  cases hdefault : s.defaultIface with
  | none =>
      left
      unfold ip4Send netifGetDefault
      rw [hdefault]
  | some i =>
      by_cases hup : CanSend (s.ifaces i)
      · exact Or.inr ⟨i, rfl, sent_ip4Send hdefault hup dst proto data hlen⟩
      · exact Or.inl (sent_ip4Send_of_not_canSend hdefault hup _ _ _ _)

end Net
end EarlnuxOS
