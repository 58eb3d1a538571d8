import EarlnuxOS.Net.ByteOrder
import EarlnuxOS.Net.Checksum

/-!
# Echo replies

The one packet that answers an echo request.  `icmp_recv` cuts the request to
the 1024 bytes of its reply buffer before it copies anything, so what comes back
is the front of a longer request.
-/

namespace EarlnuxOS
namespace Net

open Foundation

/-!
# Fields copied
-/

theorem Frame.bytes16_u16 (f : Frame) (start : Nat) :
    bytes16 (f.u16 start) = f.bytes start 2 := by
  have hlt : leNum (f.bytes start 2) < 2 ^ 16 := by
    have hbound := leNum_lt (f.bytes start 2)
    rw [f.length_bytes] at hbound
    exact hbound
  apply leNum_inj (by rw [length_bytes16, f.length_bytes])
  unfold bytes16 Frame.u16
  rw [leNum_leBytes_of_lt (UInt16.toNat_lt _)]
  exact UInt16.toNat_ofNat_of_lt' hlt

theorem Frame.bytes_add (f : Frame) (start n k : Nat) :
    f.bytes start (n + k) = f.bytes start n ++ f.bytes (start + n) k :=
  readBytes_add f.byte start n k

/-!
# The message
-/

/-- A reply of `n` bytes to the echo request at `data`. -/
structure Mirrors (f : Frame) (data n : Nat) (msg : List UInt8) : Prop where
  length : msg.length = n
  content : exists sum : UInt16,
    msg = [icmpEchoReply, 0] ++ bytes16 sum ++ f.bytes (data + 4) 4 ++
      f.bytes (data + 8) (n - 8)
  verified : rfc1071Sum msg = 0xFFFF

/-- What `icmp_recv` has put together before it adds the checksum. -/
theorem holdsAt_unsummed (buf : Static) (f : Frame) (data : Nat)
    {len : UInt32} (h8 : 8 ≤ len.toNat) :
    exists reply : Static,
      echoReply buf f data len =
        reply.write 2 (bytes16 (icmpChecksum reply.byte len.toNat)) ∧
      HoldsAt reply.byte 0 ([icmpEchoReply, 0] ++ (bytes16 0 ++
        (f.bytes (data + 4) 4 ++ f.bytes (data + 8) (len.toNat - 8)))) := by
  have h0 := Static.write_next (holdsAt_nil buf.byte 0) 0 [icmpEchoReply] rfl
  have h1 := Static.write_next h0 1 [0] rfl
  have h2 := Static.write_next h1 2 (bytes16 0) rfl
  have h4 := Static.write_next h2 4 (bytes16 (f.u16 (data + 4))) (by simp)
  have h6 := Static.write_next h4 6 (bytes16 (f.u16 (data + 6))) (by simp)
  rw [f.bytes16_u16, f.bytes16_u16] at h6
  have hfields : f.bytes (data + 4) 4 =
      f.bytes (data + 4) 2 ++ f.bytes (data + 6) 2 :=
    f.bytes_add (data + 4) 2 2
  unfold echoReply
  by_cases hpayload : icmpHeaderSize < len
  · have hsub := toNat_sub_icmpHeaderSize hpayload
    have h8 := Static.write_next h6 8 (f.bytes (data + 8) (len.toNat - 8))
      (by simp)
    refine ⟨_, rfl, ?_⟩
    rw [if_pos hpayload, hsub, hfields, f.bytes16_u16, f.bytes16_u16]
    simpa only [List.append_assoc, List.nil_append, List.cons_append] using h8
  · have hnone : len.toNat - 8 = 0 := by
      have hle : len.toNat ≤ 8 :=
        UInt32.le_iff_toNat_le.mp (UInt32.not_lt.mp hpayload)
      omega
    have hempty : f.bytes (data + 8) 0 = [] := rfl
    refine ⟨_, rfl, ?_⟩
    rw [if_neg hpayload, hnone, hempty, hfields, f.bytes16_u16, f.bytes16_u16]
    simpa only [List.append_assoc, List.nil_append, List.cons_append,
      List.append_nil] using h6

theorem mirrors_echoReply (buf : Static) (f : Frame) (data : Nat)
    (len : UInt32) (h8 : 8 ≤ len.toNat) (hlen : len.toNat ≤ 1480) :
    Mirrors f data len.toNat
      (readBytes (echoReply buf f data len).byte 0 len.toNat) where
  length := length_readBytes _ _ _
  content := by
    rcases holdsAt_unsummed buf f data h8 with ⟨reply, heq, hreply⟩
    rw [holdsAt_append, holdsAt_append, length_bytes16] at hreply
    rcases hreply with ⟨htype, _, hrest⟩
    have hfront : readBytes (echoReply buf f data len).byte 0 2 =
        [icmpEchoReply, 0] := by
      rw [heq]
      exact (readBytes_writeBytes_disjoint _ (Or.inr (Nat.le_refl 2))).trans
        htype
    have hsum : readBytes (echoReply buf f data len).byte 2 2 =
        bytes16 (icmpChecksum reply.byte len.toNat) := by
      rw [heq]
      exact (HoldsAt.readBytes (readBytes_writeBytes_self reply.byte 2 _)
        (length_bytes16 _))
    have hback : readBytes (echoReply buf f data len).byte 4 (len.toNat - 4) =
        f.bytes (data + 4) 4 ++ f.bytes (data + 8) (len.toNat - 8) := by
      rw [heq]
      refine (readBytes_writeBytes_disjoint _
        (Or.inl (by rw [length_bytes16]))).trans ?_
      exact hrest.readBytes (by
        rw [List.length_append, f.length_bytes, f.length_bytes]
        omega)
    refine ⟨icmpChecksum reply.byte len.toNat, ?_⟩
    rw [readBytes_split _ h8, hfront, hsum, hback]
    simp only [List.append_assoc]
  verified := echoReply_verified buf f data h8 hlen

/-!
# The request
-/

def icmpStart (f : Frame) : Nat := 14 + (headerLen f).toNat

/-- The host takes the frame, and finds an ICMP message of `n` bytes in it. -/
structure CarriesIcmp (s : Stack) (i : Nat) (f : Frame) (n : Nat) :
    Prop where
  mac : ethForUs (s.ifaces i).mac f
  type : ntohs (f.u16 12) = ethTypeIp
  taken : TakenByIp4 s f
  proto : f.byte 23 = ipProtoIcmp
  total : (totalLen f).toNat = (headerLen f).toNat + n

def icmpFrame (iface : Netif) (dst : UInt32) (msg : List UInt8) :
    List UInt8 :=
  ethHeader ethBroadcast iface.mac ethTypeIp ++
    ip4Header iface.addr dst ipProtoIcmp (UInt16.ofNat msg.length) ++ msg

/-- The message reaches `icmp_recv` with only counters and records changed. -/
theorem netifRecv_of_icmp {s : Stack} {i : Nat} {f : Frame} {n : Nat}
    (h : CarriesIcmp s i f n) :
    exists t : Stack,
      netifRecv s (some i) (some f) =
        icmpRecv t f (f.u32 26) (icmpStart f) (totalLen f - headerLen f) ∧
      t.sent = s.sent ∧ t.defaultIface = s.defaultIface ∧
      t.ifaces = (s.setIface i ((s.ifaces i).received f.len)).ifaces := by
  have hlong := h.taken.long
  have hlen : ¬ f.len < ethHeaderSize := fun hlt => by
    have hshort : f.len.toNat < 14 := UInt32.lt_iff_toNat_lt.mp hlt
    omega
  have hother : ntohs (f.u16 12) ≠ ethTypeArp := by
    rw [h.type]
    decide
  have hmac := h.mac
  have htaken := h.taken
  rw [← mac_setIface_received s i i f.len] at hmac
  rw [← takenByIp4_received (i := i) (l := f.len)] at htaken
  have hip := ip4Recv_of_taken
    (s := ((s.setIface i ((s.ifaces i).received f.len)).touch 12 2).touch 0
      ethAlen) ⟨htaken.long, htaken.version, htaken.dst⟩
  unfold netifRecv ethRecv
  dsimp only
  rw [if_neg hlen, if_neg hother, if_pos h.type]
  exact ⟨_, (if_pos hmac).trans (hip.trans (if_pos h.proto)), rfl, rfl, rfl⟩

/-!
# The answer
-/

theorem toNat_icmpLen {s : Stack} {i : Nat} {f : Frame} {n : Nat}
    (h : CarriesIcmp s i f n) : (totalLen f - headerLen f).toNat = n := by
  have htotal := h.total
  rw [toNat_payloadLen (by omega)]
  omega

theorem sent_netifRecv_request {s : Stack} {i k : Nat} {f : Frame} {n : Nat}
    (h : CarriesIcmp s i f n) (hdefault : s.defaultIface = some k)
    (hup : CanSend (s.ifaces k)) (h8 : 8 ≤ n)
    (htype : f.byte (icmpStart f) = icmpEchoRequest) :
    exists msg,
      (netifRecv s (some i) (some f)).sent =
        s.sent ++ [⟨k, icmpFrame (s.ifaces k) (f.u32 26) msg⟩] ∧
      Mirrors f (icmpStart f) (min n 1024) msg := by
  have hn := toNat_icmpLen h
  have hcut := toNat_replyLen (totalLen f - headerLen f)
  have hcut16 := toNat_replyLen_toUInt16 (totalLen f - headerLen f)
  rw [hn] at hcut hcut16
  rcases netifRecv_of_icmp h with ⟨t, heq, hsent, hiface, hifaces⟩
  rcases icmpRecv_echo t (f.u32 26)
      (by omega : 8 ≤ (totalLen f - headerLen f).toNat) htype with
    ⟨u, hrecv, husent, huiface, huifaces⟩
  have hmirrors := mirrors_echoReply t.replyBuf f (icmpStart f)
    (replyLen (totalLen f - headerLen f)) (by omega) (by omega)
  rw [hcut] at hmirrors
  refine ⟨_, ?_, hmirrors⟩
  have hcan : CanSend (u.ifaces k) := by
    rw [huifaces, hifaces]
    exact canSend_received hup
  have hmac : (u.ifaces k).mac = (s.ifaces k).mac := by
    rw [huifaces, hifaces, mac_setIface_received]
  have haddr : (u.ifaces k).addr = (s.ifaces k).addr := by
    rw [huifaces, hifaces, addr_setIface_received]
  have hlen : (replyLen (totalLen f - headerLen f)).toUInt16 =
      UInt16.ofNat (min n 1024) := by
    rw [← hcut16, UInt16.ofNat_toNat]
  rw [heq, hrecv, sent_ip4Send ((huiface.trans hiface).trans hdefault) hcan _ _
    _ (by omega), husent, hsent, hmac, haddr]
  unfold ip4Frame icmpFrame
  rw [hcut16, hlen, length_readBytes]

theorem sent_netifRecv_other {s : Stack} {i : Nat} {f : Frame} {n : Nat}
    (h : CarriesIcmp s i f n)
    (htype : f.byte (icmpStart f) ≠ icmpEchoRequest) :
    (netifRecv s (some i) (some f)).sent = s.sent := by
  rcases netifRecv_of_icmp h with ⟨t, heq, hsent, _, _⟩
  rw [heq, sent_icmpRecv_other (Or.inr htype), hsent]

/-- One packet with the front of the request answers it, and nothing answers the rest. -/
theorem netifRecv_mirrors {s : Stack} {i k : Nat} {f : Frame} {n : Nat}
    (h : CarriesIcmp s i f n) (hdefault : s.defaultIface = some k)
    (hup : CanSend (s.ifaces k)) :
    (f.byte (icmpStart f) = icmpEchoRequest -> 8 ≤ n -> n ≤ 1480 ->
      exists msg,
        (netifRecv s (some i) (some f)).sent =
          s.sent ++ [⟨k, icmpFrame (s.ifaces k) (f.u32 26) msg⟩] ∧
        Mirrors f (icmpStart f) (min n 1024) msg) ∧
    (f.byte (icmpStart f) ≠ icmpEchoRequest ->
      (netifRecv s (some i) (some f)).sent = s.sent) :=
  ⟨fun htype h8 _ => sent_netifRecv_request h hdefault hup h8 htype,
    sent_netifRecv_other h⟩

/-- A full-sized echo request to `10.0.2.15`, its payload all zeros. -/
def fullEcho : Frame :=
  { Frame.ofBytes
      ([255, 255, 255, 255, 255, 255, 2, 0, 0, 0, 0, 2, 8, 0] ++
        [69, 0, 5, 220, 0, 0, 64, 0, 64, 1, 0, 0, 10, 0, 2, 2, 15, 2, 0, 10] ++
        [8, 0, 0, 0, 0, 1, 0, 1]) with len := 1514 }

theorem carriesIcmp_fullEcho :
    CarriesIcmp (bootStack (upIface (ip4 10 0 2 15))) 0 fullEcho 1480 where
  mac := Or.inr (by decide)
  type := by decide
  taken := ⟨by decide, by decide, 0, rfl, Or.inl (by decide)⟩
  proto := by decide
  total := by decide

theorem netifRecv_mirrors_fullEcho :
    exists msg,
      (netifRecv (bootStack (upIface (ip4 10 0 2 15))) (some 0)
        (some fullEcho)).sent =
        [⟨0, icmpFrame (upIface (ip4 10 0 2 15)) (fullEcho.u32 26) msg⟩] ∧
      Mirrors fullEcho (icmpStart fullEcho) 1024 msg :=
  (netifRecv_mirrors carriesIcmp_fullEcho rfl (canSend_upIface _)).1
    (by decide) (by decide) (by decide)

theorem icmpFrame_inj {iface : Netif} {dst : UInt32} {as bs : List UInt8}
    (h : icmpFrame iface dst as = icmpFrame iface dst bs) : as = bs := by
  unfold icmpFrame at h
  exact (List.append_inj h (by
    simp only [List.length_append, length_ethHeader, length_ip4Header])).2

/-- The reply to a full-sized request is 1024 bytes long. -/
theorem echo_cut :
    ¬ forall (s : Stack) (i k : Nat) (f : Frame) (n : Nat),
      CarriesIcmp s i f n -> s.defaultIface = some k ->
      CanSend (s.ifaces k) -> f.byte (icmpStart f) = icmpEchoRequest ->
      8 ≤ n -> n ≤ 1480 ->
      exists msg,
        (netifRecv s (some i) (some f)).sent =
          s.sent ++ [⟨k, icmpFrame (s.ifaces k) (f.u32 26) msg⟩] ∧
        Mirrors f (icmpStart f) n msg := by
  intro hclaim
  have hup := canSend_upIface (ip4 10 0 2 15)
  rcases hclaim _ 0 0 fullEcho 1480 carriesIcmp_fullEcho rfl hup (by decide)
      (by decide) (by decide) with ⟨msg, hsent, hmirrors⟩
  rcases sent_netifRecv_request carriesIcmp_fullEcho rfl hup (by decide)
      (by decide) with ⟨cut, hcut, hfront⟩
  have hframe := List.append_cancel_left (hsent.symm.trans hcut)
  have hsame := icmpFrame_inj (Sent.mk.inj (List.cons.inj hframe).1).2
  have hlen := hmirrors.length
  rw [hsame, hfront.length] at hlen
  exact absurd hlen (by decide)

end Net
end EarlnuxOS
