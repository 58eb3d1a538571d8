import EarlnuxOS.Net.Receive

/-!
# Frames taken

Which frames reach the switch of `ip4_recv`, and the call each of them makes.
-/

namespace EarlnuxOS
namespace Net

open Foundation

/-!
# Sending leaves the record alone
-/

@[simp] theorem log_netifSend (s : Stack) (iface : Option Nat)
    (frame : Memory) (len : UInt32) :
    (netifSend s iface frame len).1.log = s.log := by
  unfold netifSend
  cases iface with
  | none => rfl
  | some i =>
      dsimp only
      split
      · rfl
      · split <;> rfl

@[simp] theorem log_ethSend (s : Stack) (iface : Option Nat) (dstMac : Mac)
    (type : UInt16) (data : Memory) (len : UInt32) :
    (ethSend s iface dstMac type data len).1.log = s.log := by
  unfold ethSend
  cases iface with
  | none => rfl
  | some i =>
      dsimp only
      split
      · rfl
      · exact log_netifSend _ _ _ _

@[simp] theorem log_ip4Send (s : Stack) (dst : UInt32) (proto : UInt8)
    (data : Memory) (len : UInt16) :
    (ip4Send s dst proto data len).1.log = s.log := by
  unfold ip4Send
  split
  · rfl
  · exact log_ethSend _ _ _ _ _ _

/-!
# Frames for this host
-/

/-- What `ip4_recv` compares before it trusts a length. -/
structure TakenByIp4 (s : Stack) (f : Frame) : Prop where
  long : 34 ≤ f.len.toNat
  version : ip4Version f = 4
  dst : exists k, s.defaultIface = some k ∧ ip4ForUs (s.ifaces k).addr f

theorem mac_setIface_received (s : Stack) (i k : Nat) (len : UInt32) :
    ((s.setIface i ((s.ifaces i).received len)).ifaces k).mac =
      (s.ifaces k).mac := by
  unfold Stack.setIface
  dsimp only
  split
  · rename_i heq
    rw [heq]
    rfl
  · rfl

theorem addr_setIface_received (s : Stack) (i k : Nat) (len : UInt32) :
    ((s.setIface i ((s.ifaces i).received len)).ifaces k).addr =
      (s.ifaces k).addr := by
  unfold Stack.setIface
  dsimp only
  split
  · rename_i heq
    rw [heq]
    rfl
  · rfl

theorem takenByIp4_received {s : Stack} {i : Nat} {l : UInt32} {f : Frame} :
    TakenByIp4 (s.setIface i ((s.ifaces i).received l)) f <->
      TakenByIp4 s f := by
  constructor
  · rintro ⟨hlong, hversion, k, hk, hdst⟩
    rw [addr_setIface_received] at hdst
    exact ⟨hlong, hversion, k, hk, hdst⟩
  · rintro ⟨hlong, hversion, k, hk, hdst⟩
    rw [← addr_setIface_received s i k l] at hdst
    exact ⟨hlong, hversion, k, hk, hdst⟩

/-!
# Calls of the handlers
-/

def Handler.proto : Handler -> UInt8
  | icmp => ipProtoIcmp
  | udp => ipProtoUdp
  | tcp => ipProtoTcp

theorem handled_icmpRecv (s : Stack) (f : Frame) (src : UInt32) (data : Nat)
    (len : UInt32) :
    (icmpRecv s f src data len).log.handled = s.log.handled := by
  unfold icmpRecv
  split
  · rfl
  · dsimp only
    split
    · rw [log_ip4Send]
      generalize (if replyBufSize < len then replyBufSize else len) = cut
      show (Stack.log (if icmpHeaderSize < cut then _ else _)).handled = _
      split <;> rfl
    · rfl

theorem handled_arpRecv (s : Stack) (f : Frame) :
    (arpRecv s f).log.handled = s.log.handled := by
  unfold arpRecv
  split
  · rfl
  · split
    · rfl
    · dsimp only
      split
      · split
        · rw [log_netifSend]
          rfl
        · rfl
      · rfl

theorem handled_dispatch {s : Stack} {f : Frame} {payload : Nat}
    {payloadLen : UInt32} {handler : Handler}
    (h : f.byte 23 = handler.proto) :
    (dispatch s f payload payloadLen).log.handled =
      s.log.handled ++ [⟨handler, f.u32 26, payload, payloadLen⟩] := by
  unfold dispatch
  rw [h]
  cases handler with
  | icmp => exact handled_icmpRecv _ _ _ _ _
  | udp => rfl
  | tcp => rfl

theorem ip4Recv_of_taken {s : Stack} {f : Frame} (h : TakenByIp4 s f) :
    ip4Recv s f =
      dispatch
        (((((s.touch 14 1).touch 30 4).touch 16 2).noteWrap
          (decide (totalLen f < headerLen f))).touch 23 1)
        f (14 + (headerLen f).toNat) (totalLen f - headerLen f) := by
  rcases h with ⟨hlong, hversion, k, hk, hdst⟩
  have hlen : ¬ f.len < ethHeaderSize + ip4HeaderSize := fun hlt =>
    Nat.not_lt.mpr hlong (UInt32.lt_iff_toNat_lt.mp hlt)
  unfold ip4Recv
  rw [if_neg hlen]
  dsimp only
  have hdefault : netifGetDefault (s.touch 14 1) = some k := hk
  rw [if_pos hversion, hdefault]
  exact if_pos hdst

theorem handled_ip4Recv_of_taken {s : Stack} {f : Frame} {handler : Handler}
    (h : TakenByIp4 s f) (hproto : f.byte 23 = handler.proto) :
    (ip4Recv s f).log.handled =
      s.log.handled ++ [⟨handler, f.u32 26, 14 + (headerLen f).toNat,
        totalLen f - headerLen f⟩] := by
  rw [ip4Recv_of_taken h]
  exact handled_dispatch hproto

theorem handled_ip4Recv_of_not_taken {s : Stack} {f : Frame}
    (h : ¬ TakenByIp4 s f) :
    (ip4Recv s f).log.handled = s.log.handled := by
  unfold ip4Recv
  split
  · rfl
  rename_i hlen
  dsimp only
  split
  · rename_i hversion
    split
    · rfl
    · rename_i k hk
      split
      · rename_i hdst
        have hlong : 34 ≤ f.len.toNat :=
          UInt32.le_iff_toNat_le.mp (UInt32.not_lt.mp hlen)
        exact absurd ⟨hlong, hversion, k, hk, hdst⟩ h
      · rfl
  · rfl

theorem handled_netifRecv_of_taken {s : Stack} {i : Nat} {f : Frame}
    {handler : Handler} (hmac : ethForUs (s.ifaces i).mac f)
    (htype : ntohs (f.u16 12) = ethTypeIp) (h : TakenByIp4 s f)
    (hproto : f.byte 23 = handler.proto) :
    (netifRecv s (some i) (some f)).log.handled =
      s.log.handled ++ [⟨handler, f.u32 26, 14 + (headerLen f).toNat,
        totalLen f - headerLen f⟩] := by
  have hlen : ¬ f.len < ethHeaderSize := fun hlt => by
    have hshort : f.len.toNat < 14 := UInt32.lt_iff_toNat_lt.mp hlt
    have hlong := h.long
    omega
  have hother : ntohs (f.u16 12) ≠ ethTypeArp := by
    rw [htype]
    decide
  rw [← mac_setIface_received s i i f.len] at hmac
  rw [← takenByIp4_received (i := i) (l := f.len)] at h
  unfold netifRecv ethRecv
  dsimp only
  rw [if_neg hlen, if_neg hother, if_pos htype]
  refine (congrArg (fun t : Stack => t.log.handled) (if_pos hmac)).trans ?_
  exact handled_ip4Recv_of_taken ⟨h.long, h.version, h.dst⟩ hproto

theorem handled_netifRecv_of_not_taken {s : Stack} {i : Nat} {f : Frame}
    (h : ¬ TakenByIp4 s f) :
    (netifRecv s (some i) (some f)).log.handled = s.log.handled := by
  rw [← takenByIp4_received (i := i) (l := f.len)] at h
  unfold netifRecv ethRecv
  dsimp only
  split
  · rfl
  · split
    · split
      · exact handled_arpRecv _ _
      · split
        · apply handled_ip4Recv_of_not_taken
          exact fun ht => h ⟨ht.long, ht.version, ht.dst⟩
        · rfl
    · rfl

/-!
# ARP frames
-/

theorem netifRecv_of_arp {s : Stack} {i : Nat} {f : Frame}
    (hlong : 14 ≤ f.len.toNat) (hmac : ethForUs (s.ifaces i).mac f)
    (htype : ntohs (f.u16 12) = ethTypeArp) :
    netifRecv s (some i) (some f) =
      arpRecv (((s.setIface i ((s.ifaces i).received f.len)).touch 12 2).touch
        0 ethAlen) f := by
  have hlen : ¬ f.len < ethHeaderSize := fun hlt =>
    Nat.not_lt.mpr hlong (UInt32.lt_iff_toNat_lt.mp hlt)
  rw [← mac_setIface_received s i i f.len] at hmac
  unfold netifRecv ethRecv
  dsimp only
  rw [if_neg hlen, if_pos htype]
  exact if_pos hmac

end Net
end EarlnuxOS
