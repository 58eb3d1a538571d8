import EarlnuxOS.Drivers.Rtl8139
import EarlnuxOS.Net.ByteOrder

/-!
# Writes of the transmit path

Which payloads `ip4_send`, `eth_send` and `rtl8139_transmit` keep inside their
buffers.  The length is compared with the MTU in `eth_send`, after `ip4_send`
has copied the payload.
-/

namespace EarlnuxOS
namespace Net

open Foundation
open Drivers

/-!
# The record of a call
-/

def Stack.unwritten (s : Stack) : Stack :=
  { s with
    ethBuffer := { s.ethBuffer with extent := 0 }
    ipBuffer := { s.ipBuffer with extent := 0 } }

def unwrittenTx (t : TxState) : TxState :=
  { t with
    txBufs := fun i => (t.txBufs i).map fun buf => { buf with extent := 0 }
    nullCopy := false }

/-- The driver after the frames of interface `nic` were handed to it. -/
def handOver (kmalloc : Nat -> Option Memory) (nic : Nat) (t : TxState)
    (frames : List Sent) : TxState :=
  frames.foldl (fun t f =>
    if f.iface = nic then (rtl8139Transmit kmalloc t f.frame).1 else t) t

def newFrames (before after : Stack) : List Sent :=
  after.sent.drop before.sent.length

theorem newFrames_of_append {before after : Stack} {frames : List Sent}
    (h : after.sent = before.sent ++ frames) :
    newFrames before after = frames := by
  unfold newFrames
  rw [h, List.drop_left]

theorem within_unwrittenTx (t : TxState) : (unwrittenTx t).Within where
  noNull := rfl
  bound := by
    intro i buf hbuf
    rcases Option.map_eq_some_iff.mp hbuf with ⟨old, _, rfl⟩
    exact Nat.zero_le _

theorem isNone_allocated_unwrittenTx (t : TxState)
    (kmalloc : Nat -> Option Memory) (i : Nat) :
    ((unwrittenTx t).allocated kmalloc i).isNone =
      (t.allocated kmalloc i).isNone :=
  isNone_allocated_map (fun _ => Option.isNone_map) i

/-!
# The buffers
-/

theorem ipBuffer_netifSend (s : Stack) (iface : Option Nat) (frame : Memory)
    (len : UInt32) : (netifSend s iface frame len).1.ipBuffer = s.ipBuffer := by
  unfold netifSend
  split
  · rfl
  · split
    · rfl
    · split <;> rfl

theorem ethBuffer_netifSend (s : Stack) (iface : Option Nat) (frame : Memory)
    (len : UInt32) :
    (netifSend s iface frame len).1.ethBuffer = s.ethBuffer := by
  unfold netifSend
  split
  · rfl
  · split
    · rfl
    · split <;> rfl

theorem ipBuffer_ethSend (s : Stack) (iface : Option Nat) (dstMac : Mac)
    (type : UInt16) (data : Memory) (len : UInt32) :
    (ethSend s iface dstMac type data len).1.ipBuffer = s.ipBuffer := by
  unfold ethSend
  split
  · rfl
  · split
    · rfl
    · exact ipBuffer_netifSend _ _ _ _

theorem extent_ethSend {s : Stack} (hs : s.ethBuffer.extent = 0)
    (iface : Option Nat) (dstMac : Mac) (type : UInt16) (data : Memory)
    (len : UInt32) :
    (ethSend s iface dstMac type data len).1.ethBuffer.extent ≤
      ethFrameMax := by
  unfold ethSend
  split
  · exact hs.trans_le (Nat.zero_le _)
  · split
    · exact hs.trans_le (Nat.zero_le _)
    · rename_i hlen
      have hle : len.toNat ≤ 1500 :=
        UInt32.le_iff_toNat_le.mp (UInt32.not_lt.mp hlen)
      dsimp only
      rw [ethBuffer_netifSend]
      dsimp only [Static.write]
      rw [hs, Mac.length_bytes, Mac.length_bytes, length_bytes16,
        length_readBytes]
      unfold ethFrameMax
      omega

/-- The last write of `ip4_send` is the payload, whatever its length. -/
theorem ipBuffer_ip4Send {s : Stack} {i : Nat}
    (hdefault : s.defaultIface = some i) (hs : s.ipBuffer.extent = 0)
    (dst : UInt32) (proto : UInt8) (data : Memory) (len : UInt16) :
    (ip4Send s dst proto data len).1.ipBuffer.extent = 20 + len.toNat := by
  unfold ip4Send netifGetDefault
  rw [hdefault]
  dsimp only
  rw [ipBuffer_ethSend]
  dsimp only [Static.write]
  rw [hs, length_bytes16, length_bytes16, length_bytes16, length_bytes16,
    length_bytes32, length_bytes32, length_readBytes]
  simp only [List.length_singleton]
  omega

/-!
# In bounds
-/

/-- The total length in the header of a frame, the high byte first. -/
def totalLenField (frame : List UInt8) : Nat :=
  leNum ((frame.drop 16).take 2).reverse

/--
A call of `ip4_send` that writes only inside the buffers, refuses what the MTU
excludes before anything but its own header is changed, and announces the
length it sends.
-/
structure SendInBounds (s : Stack) (nic : Nat) (t : TxState)
    (kmalloc : Nat -> Option Memory) (dst : UInt32) (proto : UInt8)
    (data : Memory) (len : UInt16) : Prop where
  ip : (ip4Send s.unwritten dst proto data len).1.ipBuffer.extent ≤ 1500
  eth : (ip4Send s.unwritten dst proto data len).1.ethBuffer.extent ≤
    ethFrameMax
  tx : (handOver kmalloc nic (unwrittenTx t)
    (newFrames s (ip4Send s dst proto data len).1)).Within
  refused : 1500 < 20 + len.toNat ->
    (ip4Send s dst proto data len).2 = -1 ∧
      (ip4Send s dst proto data len).1 =
        { s with ipBuffer := (ip4Send s dst proto data len).1.ipBuffer } ∧
      forall j, 20 ≤ j ->
        (ip4Send s dst proto data len).1.ipBuffer.byte j = s.ipBuffer.byte j
  total : 20 + len.toNat ≤ 1500 ->
    forall f, f ∈ newFrames s (ip4Send s dst proto data len).1 ->
      totalLenField f.frame = 20 + len.toNat

/-- The payload fits, and the frame finds its buffer if it goes to the chip. -/
def SendFits (s : Stack) (nic : Nat) (t : TxState)
    (kmalloc : Nat -> Option Memory) (len : UInt16) : Prop :=
  s.defaultIface = none ∨
    (len.toNat ≤ 1480 ∧
      (s.defaultIface = some nic -> CanSend (s.ifaces nic) ->
        (t.allocated kmalloc t.txDesc).isSome))

theorem isSome_allocated_unwrittenTx (t : TxState)
    (kmalloc : Nat -> Option Memory) (i : Nat) :
    ((unwrittenTx t).allocated kmalloc i).isSome =
      (t.allocated kmalloc i).isSome := by
  rw [← Option.not_isNone, ← Option.not_isNone,
    isNone_allocated_unwrittenTx]

/-- One frame that fits is copied in bounds exactly when its buffer is there. -/
theorem within_handOver (kmalloc : Nat -> Option Memory) (nic : Nat)
    (t : TxState) (f : Sent) (hpos : 0 < f.frame.length)
    (hlen : f.frame.length ≤ 1792) :
    (handOver kmalloc nic (unwrittenTx t) [f]).Within <->
      (f.iface = nic -> (t.allocated kmalloc t.txDesc).isSome) := by
  unfold handOver
  rw [List.foldl_cons, List.foldl_nil]
  split
  · rename_i hnic
    rw [within_rtl8139Transmit (within_unwrittenTx t) hpos hlen,
      isSome_allocated_unwrittenTx]
    exact ⟨fun h _ => h, fun h => h hnic⟩
  · rename_i hother
    exact iff_of_true (within_unwrittenTx t) fun h => absurd h hother

/-!
# The call
-/

theorem ip4Send_of_no_default {s : Stack} (h : s.defaultIface = none)
    (dst : UInt32) (proto : UInt8) (data : Memory) (len : UInt16) :
    ip4Send s dst proto data len = (s, -1) := by
  unfold ip4Send netifGetDefault
  rw [h]

theorem sendInBounds_of_no_default {s : Stack} (h : s.defaultIface = none)
    (nic : Nat) (t : TxState) (kmalloc : Nat -> Option Memory) (dst : UInt32)
    (proto : UInt8) (data : Memory) (len : UInt16) :
    SendInBounds s nic t kmalloc dst proto data len := by
  have hcall := ip4Send_of_no_default h dst proto data len
  have hnew : newFrames s (ip4Send s dst proto data len).1 = [] :=
    newFrames_of_append (by rw [hcall, List.append_nil])
  have hunwritten := ip4Send_of_no_default (s := s.unwritten) h dst proto data
    len
  constructor
  · rw [hunwritten]
    exact Nat.zero_le _
  · rw [hunwritten]
    exact Nat.zero_le _
  · rw [hnew]
    exact within_unwrittenTx t
  · intro _
    rw [hcall]
    exact ⟨rfl, rfl, fun _ _ => rfl⟩
  · intro _
    rw [hnew]
    exact List.forall_mem_nil _

theorem leNum_reverse_htons (v : UInt16) :
    leNum (bytes16 (htons v)).reverse = v.toNat := by
  have hv := v.toNat_lt
  have hbytes : bytes16 (htons v) =
      [UInt8.ofNat (htons v).toNat, UInt8.ofNat ((htons v).toNat / 256)] := rfl
  have hswap := toNat_htons v
  have hlow : (UInt8.ofNat (htons v).toNat).toNat = v.toNat / 256 := by
    rw [UInt8.toNat_ofNat']
    omega
  have hhigh : (UInt8.ofNat ((htons v).toNat / 256)).toNat = v.toNat % 256 := by
    rw [UInt8.toNat_ofNat', hswap, Nat.add_mul_div_left _ _ (by decide),
      Nat.div_eq_of_lt (by omega)]
    omega
  rw [hbytes]
  show (UInt8.ofNat _).toNat + 256 * ((UInt8.ofNat _).toNat + 256 * 0) = _
  rw [hlow, hhigh]
  omega

theorem totalLenField_ip4Frame (mac : Mac) (src dst : UInt32) (proto : UInt8)
    (data : Memory) {len : UInt16} (hlen : len.toNat ≤ 1480) :
    totalLenField (ip4Frame mac src dst proto data len) = 20 + len.toNat := by
  have hfield : ((ip4Frame mac src dst proto data len).drop 16).take 2 =
      bytes16 (htons (ip4HeaderSize + len.toUInt32).toUInt16) := by
    have hfront : (ethHeader ethBroadcast mac ethTypeIp ++ [0x45, 0]).length =
        16 := by simp
    unfold ip4Frame ip4Header
    simp only [List.append_assoc]
    rw [← List.append_assoc]
    exact take_drop_middle hfront (length_bytes16 _)
  unfold totalLenField
  rw [hfield, leNum_reverse_htons, UInt32.toNat_toUInt16, UInt32.toNat_add,
    UInt16.toNat_toUInt32]
  show (20 + len.toNat) % 2 ^ 32 % 2 ^ 16 = _
  omega

theorem sendInBounds_iff_of_fits {s : Stack} {i nic : Nat} {t : TxState}
    {kmalloc : Nat -> Option Memory} {len : UInt16}
    (hdefault : s.defaultIface = some i) (hlen : len.toNat ≤ 1480)
    (dst : UInt32) (proto : UInt8) (data : Memory) :
    SendInBounds s nic t kmalloc dst proto data len <->
      (i = nic -> CanSend (s.ifaces i) ->
        (t.allocated kmalloc t.txDesc).isSome) := by
  have hip := ipBuffer_ip4Send (s := s.unwritten) hdefault rfl dst proto data
    len
  have heth : (ip4Send s.unwritten dst proto data len).1.ethBuffer.extent ≤
      ethFrameMax := by
    unfold ip4Send netifGetDefault
    split
    · exact Nat.zero_le _
    · exact extent_ethSend rfl _ _ _ _ _
  by_cases hup : CanSend (s.ifaces i)
  · have hnew := newFrames_of_append (sent_ip4Send hdefault hup dst proto data
      hlen)
    have htx := within_handOver kmalloc nic t
      ⟨i, ip4Frame (s.ifaces i).mac (s.ifaces i).addr dst proto data len⟩
      (by dsimp only; rw [length_ip4Frame]; omega)
      (by dsimp only; rw [length_ip4Frame]; omega)
    rw [← hnew] at htx
    constructor
    · intro h hnic _
      exact htx.mp h.tx hnic
    · intro h
      refine ⟨by omega, heth, htx.mpr fun hnic => h hnic hup,
        fun hbig => by omega, fun _ => ?_⟩
      rw [hnew, List.forall_mem_singleton]
      exact totalLenField_ip4Frame _ _ _ _ _ hlen
  · have hnew : newFrames s (ip4Send s dst proto data len).1 = [] :=
      newFrames_of_append (by
        rw [sent_ip4Send_of_not_canSend hdefault hup, List.append_nil])
    refine iff_of_true ⟨by omega, heth, ?_, fun hbig => by omega, fun _ => ?_⟩
      fun _ h => absurd h hup
    · rw [hnew]
      exact within_unwrittenTx t
    · rw [hnew]
      exact List.forall_mem_nil _

theorem sendInBounds_iff (s : Stack) (nic : Nat) (t : TxState)
    (kmalloc : Nat -> Option Memory) (dst : UInt32) (proto : UInt8)
    (data : Memory) (len : UInt16) :
    SendInBounds s nic t kmalloc dst proto data len <->
      SendFits s nic t kmalloc len := by
  unfold SendFits
  cases hdefault : s.defaultIface with
  | none =>
      exact iff_of_true (sendInBounds_of_no_default hdefault nic t kmalloc dst
        proto data len) (Or.inl rfl)
  | some i =>
      constructor
      · intro h
        have hip := ipBuffer_ip4Send (s := s.unwritten) hdefault rfl dst proto
          data len
        have hbound := h.ip
        have hlen : len.toNat ≤ 1480 := by omega
        refine Or.inr ⟨hlen, fun hnic hup => ?_⟩
        cases hnic
        exact (sendInBounds_iff_of_fits hdefault hlen dst proto data).mp h rfl
          hup
      · rintro (hnone | ⟨hlen, hbuf⟩)
        · cases hnone
        · refine (sendInBounds_iff_of_fits hdefault hlen dst proto data).mpr ?_
          rintro rfl
          exact hbuf rfl

/-- A UDP payload of 1481 bytes runs one byte past the buffer of `ip4_send`. -/
theorem sendInBounds_overrun :
    ¬ SendInBounds (bootStack (upIface (ip4 127 0 0 1))) 1 txStart
      (fun _ => none) (ip4 10 0 0 2) ipProtoUdp (fun _ => 0) 1481 := by
  intro h
  have hip := ipBuffer_ip4Send
    (s := (bootStack (upIface (ip4 127 0 0 1))).unwritten) rfl rfl
    (ip4 10 0 0 2) ipProtoUdp (fun _ => 0) 1481
  have hbound := h.ip
  rw [hip] at hbound
  exact absurd hbound (by decide)

end Net
end EarlnuxOS
