import EarlnuxOS.Net.ReceiveSpec
import EarlnuxOS.Net.SendSpec

/-!
# Byte order of addresses

Addresses stand in a frame in the order the processor stores them, and nothing
turns them round.  The octets of an address appear in their own order exactly
when the address reads the same backwards.
-/

namespace EarlnuxOS
namespace Net

open Foundation

/-!
# ARP replies
-/

def arpReplyFrame (mac : Mac) (addr : UInt32) (senderMac : List UInt8)
    (senderIp : UInt32) : List UInt8 :=
  senderMac ++ mac.bytes ++ bytes16 (htons ethTypeArp) ++
    bytes16 (htons arpHwEth) ++ bytes16 (htons ethTypeIp) ++
    [UInt8.ofNat ethAlen] ++ [4] ++ bytes16 (htons arpReply) ++ mac.bytes ++
    bytes32 addr ++ senderMac ++ bytes32 senderIp

theorem sent_arpRecv {s : Stack} {k : Nat} {f : Frame}
    (hdefault : s.defaultIface = some k) (h : CanSend (s.ifaces k))
    (hlong : 42 ≤ f.len.toNat) (hopcode : ntohs (f.u16 20) = arpRequest)
    (htarget : f.u32 38 = (s.ifaces k).addr) :
    (arpRecv s f).sent =
      s.sent ++ [⟨k, arpReplyFrame (s.ifaces k).mac (s.ifaces k).addr
        (f.bytes 22 6) (f.u32 28)⟩] := by
  have hlen : ¬ f.len < ethHeaderSize + arpPacketSize := fun hlt =>
    Nat.not_lt.mpr hlong (UInt32.lt_iff_toNat_lt.mp hlt)
  have h0 := Static.write_next (holdsAt_nil s.arpReplyBuf.byte 0) 0
    (f.bytes 22 6) rfl
  have h6 := Static.write_next h0 6 (s.ifaces k).mac.bytes (by simp)
  have h12 := Static.write_next h6 12 (bytes16 (htons ethTypeArp)) (by simp)
  have h14 := Static.write_next h12 14 (bytes16 (htons arpHwEth)) (by simp)
  have h16 := Static.write_next h14 16 (bytes16 (htons ethTypeIp)) (by simp)
  have h18 := Static.write_next h16 18 [UInt8.ofNat ethAlen] (by simp)
  have h19 := Static.write_next h18 19 [4] (by simp)
  have h20 := Static.write_next h19 20 (bytes16 (htons arpReply)) (by simp)
  have h22 := Static.write_next h20 22 (s.ifaces k).mac.bytes (by simp)
  have h28 := Static.write_next h22 28 (bytes32 (s.ifaces k).addr) (by simp)
  have h32 := Static.write_next h28 32 (f.bytes 22 6) (by simp)
  have h38 := Static.write_next h32 38 (bytes32 (f.u32 28)) (by simp)
  have hread := h38.readBytes (n := 42) (by simp)
  rw [List.nil_append] at hread
  unfold arpRecv netifGetDefault
  rw [if_neg hlen, hdefault]
  dsimp only
  rw [if_pos hopcode]
  refine (congrArg Stack.sent (if_pos htarget)).trans ?_
  refine (sent_netifSend (i := k) ?_ _ _).trans ?_
  · exact h
  · exact congrArg (fun bs => s.sent ++ [⟨k, bs⟩]) hread

/-!
# The order on the wire
-/

def Unicast (dst : List UInt8) : Prop :=
  dst ≠ [255, 255, 255, 255] ∧ (dst.headD 0 < 224 ∨ 240 ≤ dst.headD 0)

/-- A well-formed IPv4 frame for one of the three protocols, sent to `mac`. -/
structure Ip4Packet (mac : Mac) (f : Frame) : Prop where
  dstMac : f.bytes 0 6 = mac.bytes
  type : f.bytes 12 2 = [0x08, 0x00]
  version : ip4Version f = 4
  header : 5 ≤ (ip4Ihl f).toNat
  total : 4 * (ip4Ihl f).toNat ≤
    256 * (f.byte 16).toNat + (f.byte 17).toNat
  long : 14 + (256 * (f.byte 16).toNat + (f.byte 17).toNat) ≤ f.len.toNat
  protocol : exists handler : Handler, f.byte 23 = handler.proto

/-- An ARP request for the protocol address with the given bytes. -/
structure ArpRequestFor (mac : Mac) (target : List UInt8) (f : Frame) :
    Prop where
  long : 42 ≤ f.len.toNat
  dstMac : ethForUs mac f
  type : f.bytes 12 2 = [0x08, 0x06]
  header : f.bytes 14 6 = [0x00, 0x01, 0x08, 0x00, 0x06, 0x04]
  opcode : f.bytes 20 2 = [0x00, 0x01]
  target : f.bytes 38 4 = target

/-- The default interface `k` has the address `IP4(a, b, c, d)`. -/
structure Configured (s : Stack) (k : Nat) (a b c d : UInt8) : Prop where
  default : s.defaultIface = some k
  addr : (s.ifaces k).addr = ip4 a b c d

/--
The host `a.b.c.d` keeps to network byte order, towards the peer `e.f.g.h` too.
-/
structure WireOrder (a b c d e f g h : UInt8) : Prop where
  received : forall s k p, Configured s k a b c d ->
    Ip4Packet (s.ifaces k).mac p -> p.bytes 30 4 = [a, b, c, d] ->
    exists call : Handled, p.byte 23 = call.handler.proto ∧
      (netifRecv s (some k) (some p)).log.handled = s.log.handled ++ [call]
  rejected : forall s k p, Configured s k a b c d ->
    Ip4Packet (s.ifaces k).mac p -> Unicast (p.bytes 30 4) ->
    p.bytes 30 4 ≠ [a, b, c, d] ->
    (netifRecv s (some k) (some p)).log.handled = s.log.handled
  answered : forall s k p, Configured s k a b c d -> CanSend (s.ifaces k) ->
    ArpRequestFor (s.ifaces k).mac [a, b, c, d] p ->
    exists reply : List UInt8,
      (netifRecv s (some k) (some p)).sent = s.sent ++ [⟨k, reply⟩] ∧
      (reply.drop 28).take 4 = [a, b, c, d]
  sent : forall s k proto data n, Configured s k a b c d ->
    CanSend (s.ifaces k) -> UInt16.toNat n ≤ 1480 ->
    exists frame : List UInt8,
      (ip4Send s (ip4 e f g h) proto data n).1.sent =
        s.sent ++ [⟨k, frame⟩] ∧
      (frame.drop 26).take 4 = [a, b, c, d] ∧
      (frame.drop 30).take 4 = [e, f, g, h]

/-!
# Where the addresses stand
-/

theorem take_drop_middle {as bs cs : List UInt8} {n k : Nat}
    (has : as.length = n) (hbs : bs.length = k) :
    ((as ++ (bs ++ cs)).drop n).take k = bs := by
  rw [List.drop_left' has, List.take_left' hbs]

/-- The front of the IPv4 header, as far as its addresses. -/
def ip4Front (mac : Mac) (proto : UInt8) (len : UInt16) : List UInt8 :=
  ethHeader ethBroadcast mac ethTypeIp ++
    ([0x45, 0] ++ bytes16 (htons (ip4HeaderSize + len.toUInt32).toUInt16) ++
      bytes16 (htons 0) ++ bytes16 (htons ip4DfFlag) ++
      [ip4DefaultTtl, proto] ++ bytes16 0)

theorem ip4Frame_eq (mac : Mac) (src dst : UInt32) (proto : UInt8)
    (data : Memory) (len : UInt16) :
    ip4Frame mac src dst proto data len =
      ip4Front mac proto len ++
        (bytes32 src ++ (bytes32 dst ++ readBytes data 0 len.toNat)) := by
  simp only [ip4Frame, ip4Header, ip4Front, List.append_assoc]

theorem length_ip4Front (mac : Mac) (proto : UInt8) (len : UInt16) :
    (ip4Front mac proto len).length = 26 := by
  simp [ip4Front]

theorem ip4Frame_src (mac : Mac) (src dst : UInt32) (proto : UInt8)
    (data : Memory) (len : UInt16) :
    ((ip4Frame mac src dst proto data len).drop 26).take 4 = bytes32 src := by
  rw [ip4Frame_eq]
  exact take_drop_middle (length_ip4Front mac proto len) (length_bytes32 src)

theorem ip4Frame_dst (mac : Mac) (src dst : UInt32) (proto : UInt8)
    (data : Memory) (len : UInt16) :
    ((ip4Frame mac src dst proto data len).drop 30).take 4 = bytes32 dst := by
  rw [ip4Frame_eq, ← List.append_assoc]
  apply take_drop_middle _ (length_bytes32 dst)
  rw [List.length_append, length_ip4Front, length_bytes32]

theorem arpReplyFrame_sender (mac : Mac) (addr senderIp : UInt32)
    {senderMac : List UInt8} (h : senderMac.length = 6) :
    ((arpReplyFrame mac addr senderMac senderIp).drop 28).take 4 =
      bytes32 addr := by
  unfold arpReplyFrame
  rw [List.append_assoc, List.append_assoc _ (bytes32 addr)]
  apply take_drop_middle _ (length_bytes32 addr)
  simp [h]

/-!
# Palindromes
-/

theorem bytes32_ip4_eq_iff {a b c d : UInt8} :
    bytes32 (ip4 a b c d) = [a, b, c, d] <-> a = d ∧ b = c := by
  rw [bytes32_ip4]
  constructor
  · intro h
    injection h with hda h
    injection h with hcb h
    exact ⟨hda.symm, hcb.symm⟩
  · rintro ⟨rfl, rfl⟩
    rfl

theorem bytes32_ip4Broadcast :
    bytes32 ip4Broadcast = [255, 255, 255, 255] :=
  bytes32_ip4 255 255 255 255

theorem ip4ForUs_ip4_iff {a b c d : UInt8} {f : Frame} :
    ip4ForUs (ip4 a b c d) f <->
      f.bytes 30 4 = [d, c, b, a] ∨ f.bytes 30 4 = [255, 255, 255, 255] := by
  unfold ip4ForUs
  rw [Frame.u32_eq_iff, Frame.u32_eq_iff, bytes32_ip4, bytes32_ip4Broadcast]

theorem Frame.ntohs_u16_of_bytes {f : Frame} {start : Nat} {hi lo : UInt8}
    {v : UInt16} (h : f.bytes start 2 = [hi, lo])
    (hv : bytes16 (htons v) = [hi, lo]) : ntohs (f.u16 start) = v := by
  rw [Frame.u16_eq_of_bytes (h.trans hv.symm), ntohs_htons]

theorem Ip4Packet.taken {s : Stack} {k : Nat} {a b c d : UInt8} {f : Frame}
    (hconf : Configured s k a b c d) (h : Ip4Packet (s.ifaces k).mac f)
    (hdst : f.bytes 30 4 = bytes32 (ip4 a b c d)) : TakenByIp4 s f := by
  have hlong : 34 ≤ f.len.toNat := by
    have hheader := h.header
    have htotal := h.total
    have hlen := h.long
    omega
  refine ⟨hlong, h.version, k, hconf.default, Or.inl ?_⟩
  rw [hconf.addr]
  exact Frame.u32_eq_of_bytes hdst

theorem canSend_received {s : Stack} {i k : Nat} {l : UInt32}
    (h : CanSend (s.ifaces k)) :
    CanSend ((s.setIface i ((s.ifaces i).received l)).ifaces k) := by
  unfold Stack.setIface
  dsimp only
  split
  · rename_i heq
    rw [heq] at h
    exact ⟨h.driver, h.up⟩
  · exact h

theorem wireOrder_of_palindrome {a b c d e f g h : UInt8}
    (haddr : bytes32 (ip4 a b c d) = [a, b, c, d])
    (hpeer : bytes32 (ip4 e f g h) = [e, f, g, h]) :
    WireOrder a b c d e f g h where
  received := by
    intro s k p hconf hp hdst
    rcases hp.protocol with ⟨handler, hproto⟩
    have htype : ntohs (p.u16 12) = ethTypeIp :=
      Frame.ntohs_u16_of_bytes hp.type (by decide)
    have htaken := hp.taken hconf (hdst.trans haddr.symm)
    exact ⟨_, hproto,
      handled_netifRecv_of_taken (Or.inl hp.dstMac) htype htaken hproto⟩
  rejected := by
    intro s k p hconf hp hunicast hdst
    apply handled_netifRecv_of_not_taken
    intro htaken
    rcases htaken.dst with ⟨k', hk', hours⟩
    cases Option.some.inj (hconf.default.symm.trans hk')
    rw [hconf.addr, ip4ForUs_ip4_iff, ← bytes32_ip4, haddr] at hours
    rcases hours with hours | hbcast
    · exact hdst hours
    · exact hunicast.1 hbcast
  answered := by
    intro s k p hconf hup hp
    have hlong := hp.long
    have htype : ntohs (p.u16 12) = ethTypeArp :=
      Frame.ntohs_u16_of_bytes hp.type (by decide)
    have hopcode : ntohs (p.u16 20) = arpRequest :=
      Frame.ntohs_u16_of_bytes hp.opcode (by decide)
    have htarget : p.u32 38 = (s.ifaces k).addr := by
      rw [hconf.addr, Frame.u32_eq_iff, haddr]
      exact hp.target
    rw [← addr_setIface_received s k k p.len] at htarget
    rw [netifRecv_of_arp (by omega) hp.dstMac htype]
    refine ⟨_, sent_arpRecv hconf.default (canSend_received hup) hlong hopcode
      htarget, ?_⟩
    rw [arpReplyFrame_sender _ _ _ (p.length_bytes 22 6)]
    refine (congrArg bytes32 ?_).trans haddr
    exact (addr_setIface_received s k k p.len).trans hconf.addr
  sent := by
    intro s k proto data n hconf hup hn
    refine ⟨_, sent_ip4Send hconf.default hup _ _ _ hn, ?_, ?_⟩
    · rw [ip4Frame_src, hconf.addr, haddr]
    · rw [ip4Frame_dst, hpeer]

/-- A host that sends anything shows whether its addresses are palindromes. -/
theorem WireOrder.palindrome {a b c d e f g h : UInt8}
    (hwire : WireOrder a b c d e f g h) :
    bytes32 (ip4 a b c d) = [a, b, c, d] ∧
      bytes32 (ip4 e f g h) = [e, f, g, h] := by
  have hconf : Configured (bootStack (upIface (ip4 a b c d))) 0 a b c d :=
    ⟨rfl, rfl⟩
  have hup : CanSend ((bootStack (upIface (ip4 a b c d))).ifaces 0) :=
    canSend_upIface _
  rcases hwire.sent _ 0 ipProtoUdp (fun _ => 0) 0 hconf hup (by decide) with
    ⟨frame, hframe, hsrc, hdst⟩
  rw [sent_ip4Send hconf.default hup _ _ _ (by decide)] at hframe
  injection List.append_cancel_left hframe with hsent
  injection hsent with _ hbytes
  rw [← hbytes, ip4Frame_src, hconf.addr] at hsrc
  rw [← hbytes, ip4Frame_dst] at hdst
  exact ⟨hsrc, hdst⟩

/--
The addresses appear in network byte order exactly when both read the same
backwards.
-/
theorem wireOrder_iff (a b c d e f g h : UInt8) :
    WireOrder a b c d e f g h <-> (a = d ∧ b = c) ∧ e = h ∧ f = g := by
  rw [← bytes32_ip4_eq_iff, ← bytes32_ip4_eq_iff]
  exact ⟨WireOrder.palindrome, fun hboth =>
    wireOrder_of_palindrome hboth.1 hboth.2⟩

theorem not_wireOrder : ¬ WireOrder 10 0 2 15 10 0 2 2 := by
  intro hwire
  exact absurd (bytes32_ip4_eq_iff.mp hwire.palindrome.1).1 (by decide)

end Net
end EarlnuxOS
