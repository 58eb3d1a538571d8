import EarlnuxOS.Net.ReceiveSpec
import EarlnuxOS.Net.SendSpec

/-!
# Packets sent and received

The receive path undoes the transmit path: a frame of `ip4_send` leads to the
one call of its protocol's handler, with the sender and the bytes it was sent
with, whatever is padded behind it.
-/

namespace EarlnuxOS
namespace Net

open Foundation

/-!
# Fields of a frame sent
-/

/-- The fields the receive path reads, as the transmit path wrote them. -/
structure Ip4Fields (f : Frame) (mac : Mac) (src dst : UInt32) (proto : UInt8)
    (data : Memory) (len : UInt16) : Prop where
  dstMac : f.bytes 0 6 = ethBroadcast.bytes
  srcMac : f.bytes 6 6 = mac.bytes
  type : f.bytes 12 2 = bytes16 (htons ethTypeIp)
  first : f.byte 14 = 0x45
  total : f.bytes 16 2 =
    bytes16 (htons (ip4HeaderSize + len.toUInt32).toUInt16)
  protocol : f.byte 23 = proto
  src : f.bytes 26 4 = bytes32 src
  dst : f.bytes 30 4 = bytes32 dst
  payload : f.bytes 34 len.toNat = readBytes data 0 len.toNat

theorem ip4Fields_of_holdsAt {f : Frame} {mac : Mac} {src dst : UInt32}
    {proto : UInt8} {data : Memory} {len : UInt16}
    (h : HoldsAt f.byte 0 (ip4Frame mac src dst proto data len)) :
    Ip4Fields f mac src dst proto data len := by
  simp only [ip4Frame, ethHeader, ip4Header, holdsAt_append, holdsAt_cons,
    Mac.length_bytes, length_bytes16, length_bytes32, List.length_append,
    List.length_cons, List.length_nil, Nat.reduceAdd] at h
  rcases h with ⟨⟨⟨⟨hdstMac, hsrcMac⟩, htype⟩, hip⟩, hpayload⟩
  rcases hip with ⟨⟨⟨⟨⟨⟨⟨⟨hfirst, _⟩, htotal⟩, _⟩, _⟩, _, hproto, _⟩, _⟩, hsrc⟩, hdst⟩
  exact
    { dstMac := hdstMac.readBytes ethBroadcast.length_bytes
      srcMac := hsrcMac.readBytes mac.length_bytes
      type := htype.readBytes (length_bytes16 _)
      first := hfirst
      total := htotal.readBytes (length_bytes16 _)
      protocol := hproto
      src := hsrc.readBytes (length_bytes32 _)
      dst := hdst.readBytes (length_bytes32 _)
      payload := hpayload.readBytes (length_readBytes _ _ _) }

namespace Ip4Fields

variable {f : Frame} {mac : Mac} {src dst : UInt32} {proto : UInt8}
variable {data : Memory} {len : UInt16}

theorem ethType (h : Ip4Fields f mac src dst proto data len) :
    ntohs (f.u16 12) = ethTypeIp := by
  rw [Frame.u16_eq_of_bytes h.type, ntohs_htons]

theorem version (h : Ip4Fields f mac src dst proto data len) :
    ip4Version f = 4 := by
  unfold ip4Version
  rw [h.first]
  decide

theorem headerLen (h : Ip4Fields f mac src dst proto data len) :
    headerLen f = 20 := by
  unfold Net.headerLen ip4Ihl
  rw [h.first]
  decide

/-- The total length survives the 16-bit field as long as it fits. -/
theorem payloadLen (h : Ip4Fields f mac src dst proto data len)
    (hlen : len.toNat ≤ 1480) :
    totalLen f - Net.headerLen f = len.toUInt32 := by
  have htotal : totalLen f = ip4HeaderSize + len.toUInt32 := by
    unfold totalLen
    rw [Frame.u16_eq_of_bytes h.total, ntohs_htons]
    apply UInt32.toNat_inj.mp
    have hsum : (ip4HeaderSize + len.toUInt32).toNat = 20 + len.toNat := by
      rw [UInt32.toNat_add, UInt16.toNat_toUInt32]
      exact Nat.mod_eq_of_lt (show 20 + len.toNat < 2 ^ 32 by omega)
    rw [UInt16.toNat_toUInt32, UInt32.toNat_toUInt16, hsum]
    exact Nat.mod_eq_of_lt (show 20 + len.toNat < 2 ^ 16 by omega)
  rw [htotal, h.headerLen, UInt32.add_comm]
  exact UInt32.add_sub_cancel _ _

end Ip4Fields

/-!
# The round trip
-/

theorem ip4Send_netifRecv {sender receiver : Stack} {i j k : Nat}
    {handler : Handler} {data : Memory} {n : UInt16}
    (hsender : sender.defaultIface = some i)
    (hup : CanSend (sender.ifaces i)) (hn : n.toNat ≤ 1480)
    (hreceiver : receiver.defaultIface = some k) :
    exists frame,
      (ip4Send sender (receiver.ifaces k).addr handler.proto data n).1.sent =
        sender.sent ++ [⟨i, frame⟩] ∧
      forall f : Frame, HoldsAt f.byte 0 frame ->
        frame.length ≤ f.len.toNat ->
        exists call : Handled,
          (netifRecv receiver (some j) (some f)).log.handled =
            receiver.log.handled ++ [call] ∧
          call.handler = handler ∧ call.src = (sender.ifaces i).addr ∧
          call.len.toNat = n.toNat ∧
          f.bytes call.data n.toNat = readBytes data 0 n.toNat := by
  refine ⟨_, sent_ip4Send hsender hup _ _ _ hn, ?_⟩
  intro f hframe hlen
  rw [length_ip4Frame] at hlen
  have hfields := ip4Fields_of_holdsAt hframe
  have hmac : ethForUs (receiver.ifaces j).mac f := Or.inr hfields.dstMac
  have htaken : TakenByIp4 receiver f :=
    ⟨by omega, hfields.version, k, hreceiver,
      Or.inl (Frame.u32_eq_of_bytes hfields.dst)⟩
  have hcall := handled_netifRecv_of_taken hmac hfields.ethType htaken
    hfields.protocol
  refine ⟨_, hcall, rfl, Frame.u32_eq_of_bytes hfields.src, ?_, ?_⟩
  · dsimp only
    rw [hfields.payloadLen hn, UInt16.toNat_toUInt32]
  · dsimp only
    rw [hfields.headerLen]
    exact hfields.payload

theorem ip4Send_netifRecv_udp :
    exists frame,
      (ip4Send (bootStack (upIface (ip4 10 0 0 1))) (ip4 10 0 0 2)
        ipProtoUdp (fun a => UInt8.ofNat a) 5).1.sent = [⟨0, frame⟩] ∧
      forall f : Frame, HoldsAt f.byte 0 frame ->
        frame.length ≤ f.len.toNat ->
        exists call : Handled,
          (netifRecv (bootStack (upIface (ip4 10 0 0 2))) (some 0)
            (some f)).log.handled = [call] ∧
          call.handler = .udp ∧ call.src = ip4 10 0 0 1 ∧
          call.len.toNat = 5 ∧ f.bytes call.data 5 = [0, 1, 2, 3, 4] :=
  @ip4Send_netifRecv (bootStack (upIface (ip4 10 0 0 1)))
    (bootStack (upIface (ip4 10 0 0 2))) 0 0 0 .udp _ 5 rfl
    (canSend_upIface _) (by decide) rfl

end Net
end EarlnuxOS
