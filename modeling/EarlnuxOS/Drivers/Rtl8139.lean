import EarlnuxOS.Net.Stack

/-!
# The RTL8139 transmitter

`rtl8139_transmit` of `kernel/drivers/rtl8139.c`: four buffers, taken from the
heap when the first frame is sent and used in turn.
-/

namespace EarlnuxOS
namespace Drivers

open Foundation
open Net

/-- What the driver tells the chip about a frame. -/
structure TxPost where
  desc : Nat
  len : Nat
deriving DecidableEq

/--
`tx_desc` and `tx_bufs`.  `nullCopy` records a copy to a buffer that is not
there, and `posted` what was written to the descriptors.
-/
structure TxState where
  txDesc : Nat
  txBufs : Nat -> Option Static
  nullCopy : Bool
  posted : List TxPost

/-- The buffers of a call; `kmalloc i` is what the heap answers for buffer `i`. -/
def TxState.allocated (t : TxState) (kmalloc : Nat -> Option Memory) :
    Nat -> Option Static :=
  if (t.txBufs 0).isNone then fun i => (kmalloc i).map fun m => ⟨m, 0⟩
  else t.txBufs

def rtl8139Transmit (kmalloc : Nat -> Option Memory) (t : TxState)
    (frame : List UInt8) : TxState × Int :=
  let bufs := t.allocated kmalloc
  if 1792 < frame.length then ({ t with txBufs := bufs }, -1)
  else
    let t := { t with
      txDesc := (t.txDesc + 1) % 4
      txBufs := fun i =>
        if i = t.txDesc then (bufs i).map fun buf => buf.write 0 frame
        else bufs i
      -- the pointer is not tested before the copy
      nullCopy := t.nullCopy || ((bufs t.txDesc).isNone && !frame.isEmpty)
      posted := t.posted ++ [⟨t.txDesc, frame.length⟩] }
    (t, 0)

def txStart : TxState := ⟨0, fun _ => none, false, []⟩

/-- The driver's answer does not depend on the frames before. -/
def rtl8139Answer : Transmit := fun _ frame =>
  (rtl8139Transmit (fun _ => none) txStart frame).2

theorem rtl8139Transmit_answer (kmalloc : Nat -> Option Memory) (t : TxState)
    (frame : List UInt8) (before : List Sent) :
    (rtl8139Transmit kmalloc t frame).2 = rtl8139Answer before frame := by
  unfold rtl8139Answer rtl8139Transmit
  dsimp only
  split <;> rfl

/-!
# Buffers
-/

theorem isNone_allocated_map {t u : TxState} {kmalloc : Nat -> Option Memory}
    (h : forall i, (u.txBufs i).isNone = (t.txBufs i).isNone) (i : Nat) :
    (u.allocated kmalloc i).isNone = (t.allocated kmalloc i).isNone := by
  unfold TxState.allocated
  rw [h 0]
  split
  · rfl
  · exact h i

/-- No copy to NULL, and none past the 2048 bytes of a buffer. -/
structure TxState.Within (t : TxState) : Prop where
  noNull : t.nullCopy = false
  bound : forall i buf, t.txBufs i = some buf -> buf.extent ≤ 2048

theorem TxState.Within.allocated {t : TxState} (h : t.Within)
    (kmalloc : Nat -> Option Memory) {i : Nat} {buf : Static}
    (hbuf : t.allocated kmalloc i = some buf) : buf.extent ≤ 2048 := by
  unfold TxState.allocated at hbuf
  split at hbuf
  · rcases Option.map_eq_some_iff.mp hbuf with ⟨m, _, rfl⟩
    exact Nat.zero_le _
  · exact h.bound i buf hbuf

theorem within_rtl8139Transmit {kmalloc : Nat -> Option Memory} {t : TxState}
    (ht : t.Within) {frame : List UInt8} (hpos : 0 < frame.length)
    (hlen : frame.length ≤ 1792) :
    (rtl8139Transmit kmalloc t frame).1.Within <->
      (t.allocated kmalloc t.txDesc).isSome := by
  have hempty : frame.isEmpty = false := by
    rw [List.isEmpty_eq_false_iff]
    exact List.ne_nil_of_length_pos hpos
  unfold rtl8139Transmit
  dsimp only
  rw [if_neg (Nat.not_lt.mpr hlen)]
  constructor
  · rintro ⟨hnull, _⟩
    dsimp only at hnull
    rw [hempty, Bool.not_false, Bool.and_true, Bool.or_eq_false_iff] at hnull
    rw [← Option.not_isNone, hnull.2]
    rfl
  · intro hsome
    refine ⟨?_, ?_⟩
    · dsimp only
      rw [ht.noNull, ← Option.not_isSome, hsome]
      rfl
    · intro i buf hbuf
      dsimp only at hbuf
      split at hbuf
      · rcases Option.map_eq_some_iff.mp hbuf with ⟨old, hold, rfl⟩
        have hbound := ht.allocated kmalloc hold
        show max old.extent (0 + frame.length) ≤ 2048
        omega
      · exact ht.allocated kmalloc hbuf

end Drivers
end EarlnuxOS
