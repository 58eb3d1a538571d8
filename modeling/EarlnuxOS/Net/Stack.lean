import EarlnuxOS.Net.Headers

/-!
# The transmit path

The state of the network stack and the functions that build and send a frame:
`netif_register` and `netif_send` of `kernel/net/netif.c`, `eth_send`,
`ip4_send`, `icmp_checksum` and `icmp_ping`.
-/

namespace EarlnuxOS
namespace Net

open Foundation

/-!
# State
-/

structure Sent where
  iface : Nat
  frame : List UInt8
deriving DecidableEq

/-- A driver's `transmit`; its answer may depend on the frames before. -/
abbrev Transmit := List Sent -> List UInt8 -> Int

structure Netif where
  mac : Mac
  addr : UInt32
  flags : UInt32
  transmit : Option Transmit
  rxPackets : UInt64
  rxBytes : UInt64
  txPackets : UInt64
  txBytes : UInt64
  txErrors : UInt64

/--
A static buffer and what lies behind it.  `extent` is one past the highest index
ever written.
-/
structure Static where
  byte : Memory
  extent : Nat

def Static.write (b : Static) (start : Nat) (bs : List UInt8) : Static where
  byte := writeBytes b.byte start bs
  extent := max b.extent (start + bs.length)

inductive Handler where
  | icmp
  | udp
  | tcp
deriving DecidableEq

/-- A call of a protocol's handler; `data` is an index into the frame. -/
structure Handled where
  handler : Handler
  src : UInt32
  data : Nat
  len : UInt32
deriving DecidableEq

/-- A read of `count` bytes of the received frame. -/
structure Read where
  start : Nat
  count : Nat
deriving DecidableEq

/-- What the receive path has done; the code keeps no such record. -/
structure Log where
  reads : List Read
  wrapped : Bool
  handled : List Handled
deriving DecidableEq

/--
The interfaces behind their pointers, the registry of `netif.c`, and the static
buffer of each function.  `sent` and `log` record what the stack did.
-/
structure Stack where
  ifaces : Nat -> Netif
  interfaces : List Nat
  defaultIface : Option Nat
  ethBuffer : Static
  ipBuffer : Static
  replyBuf : Static
  arpReplyBuf : Static
  pingBuf : Static
  sent : List Sent
  log : Log

def Stack.setIface (s : Stack) (iface : Nat) (n : Netif) : Stack :=
  { s with ifaces := fun i => if i = iface then n else s.ifaces i }

/-!
# Interfaces
-/

def netifMax : Nat := 4

def netifInit (s : Stack) : Stack :=
  { s with interfaces := [], defaultIface := none }

def netifRegister (s : Stack) (iface : Nat) : Stack × Int :=
  if netifMax ≤ s.interfaces.length then (s, -1)
  else
    ({ s with
        interfaces := s.interfaces ++ [iface]
        defaultIface :=
          match s.defaultIface with
          | none => some iface
          | some old => some old }, 0)

def netifGetDefault (s : Stack) : Option Nat := s.defaultIface

def Netif.counted (n : Netif) (ret : Int) (len : UInt32) : Netif :=
  if ret = 0 then
    { n with
      txPackets := n.txPackets + 1
      txBytes := n.txBytes + len.toUInt64 }
  else { n with txErrors := n.txErrors + 1 }

def netifSend (s : Stack) (iface : Option Nat) (frame : Memory)
    (len : UInt32) : Stack × Int :=
  match iface with
  | none => (s, -1)
  | some i =>
      match (s.ifaces i).transmit with
      | none => (s, -1)
      | some transmit =>
          if (s.ifaces i).flags &&& netifUp = 0 then (s, -1)
          else
            let bytes := readBytes frame 0 len.toNat
            let ret := transmit s.sent bytes
            let s : Stack := { s with sent := s.sent ++ [⟨i, bytes⟩] }
            (s.setIface i ((s.ifaces i).counted ret len), ret)

def bootStack (n : Netif) : Stack :=
  let blank : Static := ⟨fun _ => 0, 0⟩
  let start : Stack :=
    { ifaces := fun _ => n
      interfaces := []
      defaultIface := none
      ethBuffer := blank
      ipBuffer := blank
      replyBuf := blank
      arpReplyBuf := blank
      pingBuf := blank
      sent := []
      log := ⟨[], false, []⟩ }
  (netifRegister (netifInit start) 0).1

/-- An interface that is up, with a driver that takes every frame. -/
def upIface (addr : UInt32) : Netif where
  mac := ⟨[2, 0, 0, 0, 0, 1], rfl⟩
  addr := addr
  flags := netifUp
  transmit := some fun _ _ => 0
  rxPackets := 0
  rxBytes := 0
  txPackets := 0
  txBytes := 0
  txErrors := 0

/-!
# Ethernet
-/

def ethSend (s : Stack) (iface : Option Nat) (dstMac : Mac) (type : UInt16)
    (data : Memory) (len : UInt32) : Stack × Int :=
  match iface with
  | none => (s, -1)
  | some i =>
      if ethMtu < len then (s, -1)
      else
        let buffer := s.ethBuffer.write 0 dstMac.bytes
        let buffer := buffer.write 6 (s.ifaces i).mac.bytes
        let buffer := buffer.write 12 (bytes16 (htons type))
        let buffer := buffer.write 14 (readBytes data 0 len.toNat)
        netifSend { s with ethBuffer := buffer } (some i) buffer.byte
          (len + ethHeaderSize)

/-!
# IPv4
-/

def ip4Send (s : Stack) (dst : UInt32) (proto : UInt8) (data : Memory)
    (len : UInt16) : Stack × Int :=
  match netifGetDefault s with
  | none => (s, -1)
  | some i =>
      let total := ip4HeaderSize + len.toUInt32
      let buffer := s.ipBuffer.write 0 [((4 : UInt8) <<< 4) ||| 5]
      let buffer := buffer.write 1 [0]
      let buffer := buffer.write 2 (bytes16 (htons total.toUInt16))
      let buffer := buffer.write 4 (bytes16 (htons 0))
      let buffer := buffer.write 6 (bytes16 (htons ip4DfFlag))
      let buffer := buffer.write 8 [ip4DefaultTtl]
      let buffer := buffer.write 9 [proto]
      let buffer := buffer.write 10 (bytes16 0)
      let buffer := buffer.write 12 (bytes32 (s.ifaces i).addr)
      let buffer := buffer.write 16 (bytes32 dst)
      -- the length is not compared with the buffer here
      let buffer := buffer.write 20 (readBytes data 0 len.toNat)
      ethSend { s with ipBuffer := buffer } (some i) ethBroadcast ethTypeIp
        buffer.byte total

/-!
# ICMP
-/

/-- The words of a message added up, and a last odd byte. -/
def sumWords (data : Memory) (p : Nat) : Nat -> UInt32 -> UInt32
  | 0, sum => sum
  | 1, sum => sum + (data p).toUInt32
  | len + 2, sum =>
      sumWords data (p + 2) len
        (sum + UInt32.ofNat (leNum (readBytes data p 2)))

theorem foldCarry_decreases {sum : UInt32} (h : sum >>> 16 ≠ 0) :
    ((sum &&& (0xFFFF : UInt32)) + (sum >>> 16)).toNat < sum.toNat := by
  have hs := sum.toNat_lt
  have hhigh : (sum >>> 16).toNat = sum.toNat / 2 ^ 16 := by
    rw [UInt32.toNat_shiftRight]
    exact Nat.shiftRight_eq_div_pow sum.toNat 16
  have hlow : (sum &&& (0xFFFF : UInt32)).toNat = sum.toNat % 2 ^ 16 := by
    rw [UInt32.toNat_and]
    exact Nat.and_two_pow_sub_one_eq_mod sum.toNat 16
  have hne : (sum >>> 16).toNat ≠ 0 := fun hzero =>
    h (UInt32.toNat_inj.mp hzero)
  rw [hhigh] at hne
  have hsmall : sum.toNat % 2 ^ 16 + sum.toNat / 2 ^ 16 < sum.toNat := by
    omega
  rw [UInt32.toNat_add, hhigh, hlow, Nat.mod_eq_of_lt (hsmall.trans hs)]
  exact hsmall

def foldCarry (sum : UInt32) : UInt32 :=
  if sum >>> 16 = 0 then sum
  else foldCarry ((sum &&& (0xFFFF : UInt32)) + (sum >>> 16))
termination_by sum.toNat
decreasing_by exact foldCarry_decreases ‹_›

def icmpChecksum (data : Memory) (len : Nat) : UInt16 :=
  ~~~(foldCarry (sumWords data 0 len 0)).toUInt16

/-- The payload of a ping: the letters from `A` on, round and round. -/
def pingPayload : List UInt8 :=
  (List.range 32).map fun i => UInt8.ofNat (65 + i % 26)

def icmpPing (s : Stack) (dst : UInt32) (id seq : UInt16) : Stack × Int :=
  let icmp := s.pingBuf.write 0 [icmpEchoRequest]
  let icmp := icmp.write 1 [0]
  let icmp := icmp.write 2 (bytes16 0)
  let icmp := icmp.write 4 (bytes16 id)
  let icmp := icmp.write 6 (bytes16 seq)
  let icmp := icmp.write 8 pingPayload
  let icmp := icmp.write 2 (bytes16 (icmpChecksum icmp.byte 40))
  ip4Send { s with pingBuf := icmp } dst ipProtoIcmp icmp.byte 40

end Net
end EarlnuxOS
