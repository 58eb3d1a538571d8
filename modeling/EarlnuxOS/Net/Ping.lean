import EarlnuxOS.Net.Lan

/-!
# A ping from one host to another

`icmp_ping` on one host, the answer of the other, and what the first host makes
of it.
-/

namespace EarlnuxOS
namespace Net

open Foundation

/-!
# The request
-/

/-- The message that `icmp_ping` puts together, before it has its checksum. -/
def pingUnsummed (s : Stack) (id seq : UInt16) : Static :=
  let icmp := s.pingBuf.write 0 [icmpEchoRequest]
  let icmp := icmp.write 1 [0]
  let icmp := icmp.write 2 (bytes16 0)
  let icmp := icmp.write 4 (bytes16 id)
  let icmp := icmp.write 6 (bytes16 seq)
  icmp.write 8 pingPayload

def pingMessage (s : Stack) (id seq : UInt16) : Static :=
  (pingUnsummed s id seq).write 2
    (bytes16 (icmpChecksum (pingUnsummed s id seq).byte 40))

@[simp] theorem length_pingPayload : pingPayload.length = 32 := by
  simp [pingPayload]

/-- The identifier, the number and the letters of a ping. -/
def pingBody (id seq : UInt16) : List UInt8 :=
  bytes16 id ++ (bytes16 seq ++ pingPayload)

theorem length_pingBody (id seq : UInt16) : (pingBody id seq).length = 36 := by
  simp [pingBody]

theorem pingMessage_bytes (s : Stack) (id seq : UInt16) :
    (pingMessage s id seq).byte 0 = icmpEchoRequest ∧
      readBytes (pingMessage s id seq).byte 4 36 = pingBody id seq := by
  have h0 := Static.write_next (holdsAt_nil s.pingBuf.byte 0) 0
    [icmpEchoRequest] rfl
  have h1 := Static.write_next h0 1 [0] rfl
  have h2 := Static.write_next h1 2 (bytes16 0) rfl
  have h4 := Static.write_next h2 4 (bytes16 id) (by simp)
  have h6 := Static.write_next h4 6 (bytes16 seq) (by simp)
  have h8 := Static.write_next h6 8 pingPayload (by simp)
  simp only [List.nil_append, List.append_assoc, List.cons_append, holdsAt_cons] at h8
  rcases h8 with ⟨htype, _, hrest⟩
  have hbody := (holdsAt_append.mp hrest).right
  rw [length_bytes16] at hbody
  have hfirst := @writeBytes_apply_outside (pingUnsummed s id seq).byte 2 0
    (bytes16 (icmpChecksum (pingUnsummed s id seq).byte 40)) (Or.inl (by decide))
  have hback := @readBytes_writeBytes_disjoint (pingUnsummed s id seq).byte 2 4 36
    (bytes16 (icmpChecksum (pingUnsummed s id seq).byte 40)) (Or.inl (by simp))
  exact ⟨hfirst.trans htype, hback.trans (hbody.readBytes (length_pingBody id seq))⟩

/-!
# What sending leaves alone
-/

/-- The default interface and the addresses are the same. -/
structure SameHost (s t : Stack) : Prop where
  default : t.defaultIface = s.defaultIface
  addr : forall k, (t.ifaces k).addr = (s.ifaces k).addr

theorem sameHost_netifSend (s : Stack) (i : Option Nat) (frame : Memory)
    (len : UInt32) : SameHost s (netifSend s i frame len).1 := by
  unfold netifSend
  split
  · exact ⟨rfl, fun _ => rfl⟩
  · split
    · exact ⟨rfl, fun _ => rfl⟩
    · split
      · exact ⟨rfl, fun _ => rfl⟩
      · constructor
        · rfl
        · intro k
          unfold Stack.setIface
          dsimp only
          split
          · rename_i hk
            rw [hk]
            unfold Netif.counted
            split <;> rfl
          · rfl

theorem sameHost_ip4Send (s : Stack) (dst : UInt32) (proto : UInt8) (data : Memory)
    (len : UInt16) : SameHost s (ip4Send s dst proto data len).1 := by
  unfold ip4Send
  split
  · exact ⟨rfl, fun _ => rfl⟩
  · unfold ethSend
    dsimp only
    split
    · exact ⟨rfl, fun _ => rfl⟩
    · have hsame := sameHost_netifSend
      exact ⟨(hsame _ _ _ _).default, (hsame _ _ _ _).addr⟩

/-!
# The exchange
-/

theorem ip4Fields_icmpFrame {iface : Netif} {dst : UInt32} {msg : List UInt8} {g : Frame}
    (hlen : msg.length < 2 ^ 16)
    (h : HoldsAt g.byte 0 (icmpFrame iface dst msg)) :
    Ip4Fields g iface.mac iface.addr dst ipProtoIcmp (fun a => msg.getD a 0)
      (UInt16.ofNat msg.length) := by
  apply ip4Fields_of_holdsAt
  have hlength : (UInt16.ofNat msg.length).toNat = msg.length :=
    UInt16.toNat_ofNat_of_lt' hlen
  unfold ip4Frame
  rw [hlength, (holdsAt_getD msg).readBytes rfl]
  exact h

theorem Ip4Fields.carriesIcmp {s : Stack} {f : Frame} {mac : Mac} {src : UInt32}
    {data : Memory} {len : UInt16} {i k : Nat} (hdefault : s.defaultIface = some k)
    (h : Ip4Fields f mac src (s.ifaces k).addr ipProtoIcmp data len)
    (hlen : len.toNat ≤ 1480) (hlong : 34 ≤ f.len.toNat) :
    CarriesIcmp s i f len.toNat where
  mac := Or.inr h.dstMac
  type := h.ethType
  taken := ⟨hlong, h.version, k, hdefault, Or.inl (Frame.u32_eq_of_bytes h.dst)⟩
  proto := h.protocol
  total := by
    have hsum := UInt32.sub_eq_iff_eq_add.mp (h.payloadLen hlen)
    rw [hsum, h.headerLen, UInt32.toNat_add, UInt16.toNat_toUInt32]
    change (len.toNat + 20) % 2 ^ 32 = 20 + len.toNat
    omega

theorem Ip4Fields.message {f : Frame} {mac : Mac} {src dst : UInt32} {proto : UInt8}
    {data : Memory} {len : UInt16} (h : Ip4Fields f mac src dst proto data len)
    (start : Nat) {n : Nat} (hn : start + n ≤ len.toNat) :
    f.bytes (34 + start) n = readBytes data start n := by
  have hwhole := h.payload
  unfold Frame.bytes at hwhole ⊢
  rw [readBytes_slice _ _ hn, hwhole, ← readBytes_slice _ _ hn, Nat.zero_add]

theorem sent_icmpPing {a : Stack} {i : Nat} (ha : a.defaultIface = some i)
    (hup : CanSend (a.ifaces i)) (dst : UInt32) (id seq : UInt16) :
    (icmpPing a dst id seq).1.sent =
      a.sent ++ [⟨i, ip4Frame (a.ifaces i).mac (a.ifaces i).addr dst ipProtoIcmp
        (pingMessage a id seq).byte 40⟩] := by
  have hfits : (40 : UInt16).toNat ≤ 1480 := by decide
  exact sent_ip4Send (s := { a with pingBuf := pingMessage a id seq }) ha hup dst
    ipProtoIcmp (pingMessage a id seq).byte hfits

theorem sameHost_icmpPing (a : Stack) (dst : UInt32) (id seq : UInt16) :
    SameHost a (icmpPing a dst id seq).1 := by
  have hsame := sameHost_ip4Send { a with pingBuf := pingMessage a id seq } dst
    ipProtoIcmp (pingMessage a id seq).byte 40
  exact ⟨hsame.default, hsame.addr⟩

structure Pong (id seq : UInt16) (msg : List UInt8) : Prop where
  length : msg.length = 40
  content : exists sum : UInt16,
    msg = [icmpEchoReply, 0] ++ (bytes16 sum ++ pingBody id seq)
  verified : rfc1071Sum msg = 0xFFFF

theorem sent_pong {a b : Stack} {j k : Nat} {f : Frame} {src : UInt32} {mac : Mac}
    {id seq : UInt16} (hb : b.defaultIface = some k) (hup : CanSend (b.ifaces k))
    (hf : Arrives (ip4Frame mac src (b.ifaces k).addr ipProtoIcmp
      (pingMessage a id seq).byte 40) f) :
    exists msg, Pong id seq msg ∧
      (netifRecv b (some j) (some f)).sent =
        b.sent ++ [⟨k, icmpFrame (b.ifaces k) src msg⟩] := by
  rcases pingMessage_bytes a id seq with ⟨htype, hbody⟩
  have hfields := ip4Fields_of_holdsAt hf.bytes
  have hlong := hf.long
  rw [length_ip4Frame] at hlong
  have hcarries := hfields.carriesIcmp (i := j) hb (by decide) (by omega)
  have hrequest : f.byte (icmpStart f) = icmpEchoRequest := by
    rw [hfields.icmpStart, ← htype]
    exact readBytes_eq_iff.mp hfields.payload 0 (by decide)
  rcases sent_netifRecv_request hcarries hb hup (by decide) hrequest with
    ⟨msg, hsent, hmirrors⟩
  rw [Frame.u32_eq_of_bytes hfields.src] at hsent
  refine ⟨msg, ⟨hmirrors.length, ?_, hmirrors.verified⟩, hsent⟩
  rcases hmirrors.content with ⟨sum, hmsg⟩
  have hback : f.bytes 38 36 = pingBody id seq :=
    (hfields.message 4 (n := 36) (by decide)).trans hbody
  have hsplit : f.bytes 38 36 = f.bytes 38 4 ++ f.bytes 42 32 := f.bytes_add 38 4 32
  refine ⟨sum, ?_⟩
  rw [hfields.icmpStart] at hmsg
  rw [hmsg, ← hback, hsplit]
  simp only [List.append_assoc]
  rfl

/-- The host that asked gets the answer to its handler, and answers nothing. -/
theorem received_pong {a : Stack} {i l : Nat} {iface : Netif} {id seq : UInt16}
    {msg : List UInt8} {g : Frame} (ha : a.defaultIface = some i)
    (hpong : Pong id seq msg)
    (hg : Arrives (icmpFrame iface (a.ifaces i).addr msg) g) :
    (netifRecv a (some l) (some g)).sent = a.sent ∧
      (netifRecv a (some l) (some g)).log.handled =
        a.log.handled ++ [⟨.icmp, iface.addr, 34, 40⟩] ∧
      g.bytes 34 40 = msg := by
  have hlength := hpong.length
  have hfields := ip4Fields_icmpFrame (by rw [hlength]; decide) hg.bytes
  have hlong := hg.long
  rw [icmpFrame, List.length_append, List.length_append, length_ethHeader,
    length_ip4Header] at hlong
  rw [hlength] at hfields
  have hholds : HoldsAt g.byte 34 msg := by
    have hbytes := hg.bytes
    rw [icmpFrame, holdsAt_append, List.length_append, length_ethHeader,
      length_ip4Header] at hbytes
    exact hbytes.right
  rcases hpong.content with ⟨sum, hmsg⟩
  have hfirst : g.byte 34 = icmpEchoReply := by
    rw [hmsg, List.cons_append, holdsAt_cons] at hholds
    exact hholds.left
  constructor
  · apply answerless_ip hfields.ethType
    rw [hfields.icmpStart, hfirst]
    decide
  · constructor
    · have htaken : TakenByIp4 a g :=
        ⟨by omega, hfields.version, i, ha, Or.inl (Frame.u32_eq_of_bytes hfields.dst)⟩
      have hproto : g.byte 23 = Handler.icmp.proto := hfields.protocol
      have hhandled := handled_netifRecv_of_taken (i := l) (Or.inr hfields.dstMac)
        hfields.ethType htaken hproto
      rw [hhandled, Frame.u32_eq_of_bytes hfields.src, hfields.payloadLen (by decide),
        hfields.headerLen]
      rfl
    · exact hholds.readBytes hlength

/--
A ping comes back.  The host it goes to answers with one packet, whatever the
request was padded with, and the host that asked finds in that packet its own
identifier, number and letters under a checksum that is right; the answer goes
to its handler and to nobody else.
-/
theorem ping_answered {a b : Stack} {i j k l : Nat} (ha : a.defaultIface = some i)
    (hupa : CanSend (a.ifaces i)) (hb : b.defaultIface = some k)
    (hupb : CanSend (b.ifaces k)) (id seq : UInt16) :
    exists request,
      (icmpPing a (b.ifaces k).addr id seq).1.sent = a.sent ++ [⟨i, request⟩] ∧
      forall f, Arrives request f ->
        exists reply,
          (netifRecv b (some j) (some f)).sent = b.sent ++ [⟨k, reply⟩] ∧
          forall g, Arrives reply g ->
            let asked := (icmpPing a (b.ifaces k).addr id seq).1
            let answered := netifRecv asked (some l) (some g)
            answered.sent = asked.sent ∧
              answered.log.handled =
                asked.log.handled ++ [⟨.icmp, (b.ifaces k).addr, 34, 40⟩] ∧
              Pong id seq (g.bytes 34 40) := by
  refine ⟨_, sent_icmpPing ha hupa _ id seq, ?_⟩
  intro f hf
  rcases sent_pong (j := j) hb hupb hf with ⟨msg, hpong, hsent⟩
  refine ⟨_, hsent, ?_⟩
  intro g hg
  have hsame := sameHost_icmpPing a (b.ifaces k).addr id seq
  rw [← hsame.addr i] at hg
  rcases received_pong (l := l) (hsame.default.trans ha) hpong hg with
    ⟨hquiet, hhandled, hmsg⟩
  refine ⟨hquiet, hhandled, ?_⟩
  rw [hmsg]
  exact hpong

theorem ping_answered_once :
    exists request,
      (icmpPing (bootStack (upIface (ip4 10 0 2 15))) (ip4 10 0 2 2) 1 1).1.sent =
        [⟨0, request⟩] ∧
      forall f, Arrives request f ->
        exists reply,
          (netifRecv (bootStack (upIface (ip4 10 0 2 2))) (some 0) (some f)).sent =
            [⟨0, reply⟩] ∧
          forall g, Arrives reply g ->
            let asked := (icmpPing (bootStack (upIface (ip4 10 0 2 15)))
              (ip4 10 0 2 2) 1 1).1
            let answered := netifRecv asked (some 0) (some g)
            answered.sent = asked.sent ∧
              answered.log.handled =
                asked.log.handled ++ [⟨.icmp, ip4 10 0 2 2, 34, 40⟩] ∧
              Pong 1 1 (g.bytes 34 40) :=
  ping_answered (a := bootStack (upIface (ip4 10 0 2 15)))
    (b := bootStack (upIface (ip4 10 0 2 2))) rfl (canSend_upIface _) rfl
    (canSend_upIface _) 1 1

end Net
end EarlnuxOS
