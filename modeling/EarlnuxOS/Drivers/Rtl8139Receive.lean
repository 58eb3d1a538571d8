import EarlnuxOS.Foundation.RecordRing
import EarlnuxOS.Foundation.Run
import EarlnuxOS.Net.Receive
import EarlnuxOS.Types
import Mathlib.Logic.Function.Iterate

/-!
# The RTL8139 receiver

The chip writes records into a ring, and `rtl8139_handler` of
`kernel/drivers/rtl8139.c` takes them out.  The chip works on while the handler
runs, so one pass of the handler's loop is a step of its own.
-/

namespace EarlnuxOS
namespace Drivers

open Foundation
open Net

def rxBufSize : Nat := 8192

def rxTotalSize : Nat := rxBufSize + 16 + 2048

/-!
# Records
-/

/-- What the chip stores for a packet; the data ends with the CRC. -/
structure Record where
  status : UInt16
  data : List UInt8
  long : 8 ≤ data.length
  short : data.length ≤ 1522
deriving DecidableEq

namespace Record

def bytes (r : Record) : List UInt8 :=
  bytes16 r.status ++ (bytes16 (UInt16.ofNat r.data.length) ++ r.data)

/-- The bytes of the ring up to where the next record starts. -/
def size (r : Record) : Nat := (r.data.length + 4 + 3) / 4 * 4

/-- The record of a packet that arrived without an error. -/
def Good (r : Record) : Prop := r.status &&& 1 ≠ 0

instance (r : Record) : Decidable r.Good := inferInstanceAs (Decidable (_ ≠ _))

/-- The frame in a record, without the CRC. -/
def frame (r : Record) : List UInt8 := r.data.take (r.data.length - 4)

theorem length_bytes (r : Record) : r.bytes.length = 4 + r.data.length := by
  simp [bytes]
  omega

theorem length_bytes_le_size (r : Record) : r.bytes.length ≤ r.size := by
  rw [r.length_bytes]
  unfold size
  omega

theorem size_pos (r : Record) : 0 < r.size := by
  have hlong := r.long
  unfold size
  omega

end Record

def goodFrames (rs : List Record) : List (List UInt8) :=
  (rs.filter fun r => decide r.Good).map Record.frame

/-!
# State
-/

/--
The ring and both sides of it.  `running` is whether the handler is in its loop,
`rok` the bit `ISR_ROK` of the status register, and `nicOffset` where the chip
writes next.  `appended`, `passed` and `top` record what was stored, what
`netif_recv` was given and how far the buffer was used.
-/
structure RxState where
  rxBuffer : Memory
  rxOffset : UInt32
  capr : UInt16
  running : Bool
  rok : Bool
  nicOffset : Nat
  appended : List Record
  passed : List (List UInt8)
  top : Nat
  stack : Stack

/-- The state `rtl8139_init` leaves. -/
def rxStart (stack : Stack) : RxState where
  rxBuffer := fun _ => 0
  rxOffset := 0
  capr := 0xFFF0
  running := false
  rok := false
  nicOffset := 0
  appended := []
  passed := []
  top := 0
  stack := stack

def RxState.unread (s : RxState) : List Record :=
  s.appended.drop s.passed.length

/-!
# Steps
-/

inductive RxOp where
  | append (r : Record)
  | interrupt
  | iterate

/-- The chip stores a record, and raises `ISR_ROK` for a good one. -/
def RxState.append (s : RxState) (r : Record) : RxState :=
  { s with
    rxBuffer := writeBytes s.rxBuffer s.nicOffset r.bytes
    nicOffset := (s.nicOffset + r.size) % rxBufSize
    appended := s.appended ++ [r]
    rok := s.rok || decide r.Good
    top := max s.top (s.nicOffset + r.bytes.length) }

/-- `rtl8139_handler` up to its loop; it is not interrupted itself. -/
def RxState.interrupt (s : RxState) : RxState :=
  if s.running then s else { s with running := s.rok, rok := false }

/-- A 16-bit word of the ring as the processor loads it. -/
def word16 (m : Memory) (a : Nat) : UInt16 :=
  UInt16.ofNat (leNum (readBytes m a 2))

/-- One pass of the loop in `rtl8139_handler`; `iface` is `rtl_netif`. -/
def RxState.iterate (iface : Nat) (s : RxState) : RxState :=
  if s.running then
    -- CMD_RX_EMPTY
    if s.rxOffset.toNat = s.nicOffset then { s with running := false }
    else
      let header := s.rxOffset.toNat
      let packetStatus := word16 s.rxBuffer header
      let packetLen := word16 s.rxBuffer (header + 2)
      let s := { s with top := max s.top (header + 4) }
      if packetStatus &&& 1 = 0 then { s with running := false }
      else
        let frame : Frame :=
          { byte := fun j => s.rxBuffer (header + 4 + j)
            len := packetLen.toUInt32 - 4 }
        let rxOffset :=
          ((s.rxOffset + packetLen.toUInt32 + 4 + 3) &&& ~~~3) % 8192
        { s with
          stack := netifRecv s.stack (some iface) (some frame)
          passed := s.passed ++ [frame.bytes 0 frame.len.toNat]
          top := max s.top (header + 4 + frame.len.toNat)
          rxOffset := rxOffset
          capr := (rxOffset - 16).toUInt16 }
  else s

def RxState.exec (iface : Nat) (s : RxState) : RxOp -> RxState
  | RxOp.append r => s.append r
  | RxOp.interrupt => s.interrupt
  | RxOp.iterate => s.iterate iface

/-- The chip does not overrun what has not been read. -/
def HasRoom (s : RxState) : RxOp -> Prop
  | RxOp.append r =>
      ringBytes Record.size s.unread + r.size ≤ rxBufSize
  | _ => True

/-!
# What is expected
-/

/-- The handler finishes, is entered once more and finishes again. -/
def RxState.served (iface : Nat) (s : RxState) (n m : Nat) : RxState :=
  (RxState.iterate iface)^[m] ((RxState.iterate iface)^[n] s).interrupt

/-- The handler gets done with what is pending, and has passed on every good frame. -/
def Delivers (iface : Nat) (s : RxState) : Prop :=
  exists n m,
    ((RxState.iterate iface)^[n] s).running = false ∧
      (s.served iface n m).running = false ∧
      (s.served iface n m).passed = goodFrames s.appended

/-- Nothing is lost, repeated or out of order, and no access leaves the buffer. -/
structure RingSound (iface : Nat) (s : RxState) : Prop where
  bounds : s.top ≤ rxTotalSize
  inOrder : s.passed <+: goodFrames s.appended
  delivers : Delivers iface s
  drained : s.passed.length = s.appended.length ->
    s.rxOffset.toNat = s.nicOffset

/--
No good record is stored behind one with an error, and the ring is not filled to
its last byte while a good one is in it.
-/
def Deliverable (s : RxState) : RxOp -> Prop
  | RxOp.append r =>
      (r.Good -> forall q, q ∈ s.appended -> q.Good) ∧
        (ringBytes Record.size (s.unread ++ [r]) = rxBufSize ->
          forall q, q ∈ s.unread ++ [r] -> ¬ q.Good)
  | _ => True

end Drivers
end EarlnuxOS
