import EarlnuxOS.Foundation.Network
import EarlnuxOS.Net.EchoReply
import EarlnuxOS.Net.RoundTrip

/-!
# Stations on one network

Several hosts that run the stack, joined by a medium that may reorder, lose, pad
and repeat no frame.  A frame that a host sends because it received one is a
reply, and no host answers a reply, so the traffic dies down by itself.
-/

namespace EarlnuxOS
namespace Net

open Foundation

/-!
# Replies
-/

/-- What a driver hands up of a frame: its bytes, with anything behind them. -/
structure Arrives (bs : List UInt8) (f : Frame) : Prop where
  bytes : HoldsAt f.byte 0 bs
  long : bs.length ≤ f.len.toNat

/-- The two kinds of frames that answer another one. -/
inductive Reply : List UInt8 -> Prop where
  | arp (mac : Mac) (addr : UInt32) (senderMac : List UInt8) (senderIp : UInt32)
      (hlength : senderMac.length = 6) :
      Reply (arpReplyFrame mac addr senderMac senderIp)
  | echo (mac : Mac) (src dst : UInt32) (data : Memory) (len : UInt16)
      (hlen : 8 ≤ len.toNat) (htype : data 0 = icmpEchoReply) :
      Reply (ip4Frame mac src dst ipProtoIcmp data len)

/-- At most one frame was sent in between, and that is a reply. -/
def SendsReply (s t : Stack) : Prop :=
  exists frames, t.sent = s.sent ++ frames ∧ frames.length ≤ 1 ∧
    forall x, x ∈ frames -> Reply x.frame

namespace SendsReply

variable {s t : Stack}

theorem start {s' : Stack} (h : SendsReply s' t) (hsent : s'.sent = s.sent) :
    SendsReply s t := by
  rcases h with ⟨frames, hframes, hrest⟩
  rw [hsent] at hframes
  exact ⟨frames, hframes, hrest⟩

theorem of_sent (h : t.sent = s.sent) : SendsReply s t :=
  ⟨[], by rw [h, List.append_nil], Nat.zero_le 1, fun _ hx => by cases hx⟩

theorem one {i : Nat} {bs : List UInt8} (h : t.sent = s.sent ++ [⟨i, bs⟩])
    (hreply : Reply bs) : SendsReply s t :=
  ⟨[⟨i, bs⟩], h, Nat.le_refl 1, fun x hx => by
    rw [List.mem_singleton.mp hx]
    exact hreply⟩

end SendsReply

theorem sendsReply_arpRecv (s : Stack) (f : Frame) : SendsReply s (arpRecv s f) := by
  cases hdefault : s.defaultIface with
  | none =>
      apply SendsReply.of_sent
      unfold arpRecv netifGetDefault
      split
      · rfl
      · rw [hdefault]
  | some k =>
      by_cases hup : CanSend (s.ifaces k)
      · by_cases hanswered : 42 ≤ f.len.toNat ∧ ntohs (f.u16 20) = arpRequest ∧
            f.u32 38 = (s.ifaces k).addr
        · rcases hanswered with ⟨hlong, hopcode, htarget⟩
          exact SendsReply.one (sent_arpRecv hdefault hup hlong hopcode htarget)
            (.arp _ _ _ _ (f.length_bytes 22 6))
        · apply SendsReply.of_sent
          unfold arpRecv netifGetDefault
          split
          · rfl
          · rename_i hlen
            rw [hdefault]
            dsimp only
            split
            · rename_i hopcode
              split
              · rename_i htarget
                have hlong : 42 ≤ f.len.toNat :=
                  UInt32.le_iff_toNat_le.mp (UInt32.not_lt.mp hlen)
                exact absurd ⟨hlong, hopcode, htarget⟩ hanswered
              · rfl
            · rfl
      · apply SendsReply.of_sent
        unfold arpRecv netifGetDefault
        split
        · rfl
        · rw [hdefault]
          dsimp only
          split
          · split
            · rw [netifSend_of_not_canSend]
              · rfl
              · exact hup
            · rfl
          · rfl

theorem echoReply_type (buf : Static) (f : Frame) (data : Nat) {len : UInt32}
    (h8 : 8 ≤ len.toNat) : (echoReply buf f data len).byte 0 = icmpEchoReply := by
  rcases holdsAt_unsummed buf f data h8 with ⟨reply, heq, hreply⟩
  have houtside := @writeBytes_apply_outside reply.byte 2 0
    (bytes16 (icmpChecksum reply.byte len.toNat)) (Or.inl (by decide))
  rw [List.cons_append, holdsAt_cons] at hreply
  rw [heq]
  exact houtside.trans hreply.left

theorem sendsReply_icmpRecv (s : Stack) (f : Frame) (src : UInt32) (data : Nat)
    (len : UInt32) : SendsReply s (icmpRecv s f src data len) := by
  by_cases hecho : 8 ≤ len.toNat ∧ f.byte data = icmpEchoRequest
  · rcases hecho with ⟨hlen, htype⟩
    rcases icmpRecv_echo s src hlen htype with ⟨t, heq, hsent, _, _⟩
    have hcut := toNat_replyLen len
    have hcut16 := toNat_replyLen_toUInt16 len
    rw [heq]
    have hfits : (replyLen len).toUInt16.toNat ≤ 1480 := by omega
    rcases sent_ip4Send_cases t src ipProtoIcmp
        (echoReply s.replyBuf f data (replyLen len)).byte hfits with
      hnone | ⟨i, _, hone⟩
    · apply SendsReply.of_sent
      rw [hnone, hsent]
    · rw [hsent] at hone
      exact SendsReply.one hone
        (.echo _ _ _ _ _ (by omega) (echoReply_type _ f data (by omega)))
  · apply SendsReply.of_sent
    apply sent_icmpRecv_other
    by_cases hlen : 8 ≤ len.toNat
    · exact Or.inr fun htype => hecho ⟨hlen, htype⟩
    · exact Or.inl (Nat.not_le.mp hlen)

theorem sendsReply_dispatch (s : Stack) (f : Frame) (payload : Nat)
    (payloadLen : UInt32) : SendsReply s (dispatch s f payload payloadLen) := by
  unfold dispatch
  split
  · exact (sendsReply_icmpRecv _ f _ _ _).start rfl
  · split
    · exact SendsReply.of_sent rfl
    · split
      · exact SendsReply.of_sent rfl
      · exact SendsReply.of_sent rfl

theorem sendsReply_ip4Recv (s : Stack) (f : Frame) : SendsReply s (ip4Recv s f) := by
  unfold ip4Recv
  split
  · exact SendsReply.of_sent rfl
  · dsimp only
    split
    · split
      · exact SendsReply.of_sent rfl
      · split
        · exact (sendsReply_dispatch _ f _ _).start rfl
        · exact SendsReply.of_sent rfl
    · exact SendsReply.of_sent rfl

/-- Whatever arrives, a host answers with at most one frame, and with a reply. -/
theorem sendsReply_netifRecv (s : Stack) (i : Nat) (f : Frame) :
    SendsReply s (netifRecv s (some i) (some f)) := by
  unfold netifRecv ethRecv
  dsimp only
  split
  · exact SendsReply.of_sent rfl
  · split
    · split
      · exact (sendsReply_arpRecv _ f).start rfl
      · split
        · exact (sendsReply_ip4Recv _ f).start rfl
        · exact SendsReply.of_sent rfl
    · exact SendsReply.of_sent rfl

/-!
# Frames that nobody answers
-/

/-- Whichever host gets the frame, and on whichever interface, it sends nothing. -/
def Answerless (f : Frame) : Prop :=
  forall (s : Stack) (i : Nat), (netifRecv s (some i) (some f)).sent = s.sent

theorem answerless_arp {f : Frame} (htype : ntohs (f.u16 12) = ethTypeArp)
    (hopcode : ntohs (f.u16 20) ≠ arpRequest) : Answerless f := by
  intro s i
  unfold netifRecv ethRecv
  dsimp only
  split
  · rfl
  · split
    · unfold arpRecv
      split
      · rfl
      · split
        · rfl
        · rw [if_neg hopcode]
          rfl
    · rfl

theorem sent_dispatch_other {s : Stack} {f : Frame} {payload : Nat}
    {payloadLen : UInt32} (h : f.byte payload ≠ icmpEchoRequest) :
    (dispatch s f payload payloadLen).sent = s.sent := by
  unfold dispatch
  split
  · exact sent_icmpRecv_other (Or.inr h)
  · split
    · rfl
    · split <;> rfl

theorem answerless_ip {f : Frame} (htype : ntohs (f.u16 12) = ethTypeIp)
    (hmessage : f.byte (icmpStart f) ≠ icmpEchoRequest) : Answerless f := by
  intro s i
  have hother : ntohs (f.u16 12) ≠ ethTypeArp := by
    rw [htype]
    decide
  unfold netifRecv ethRecv
  dsimp only
  split
  · rfl
  · split
    · unfold ip4Recv
      split
      · rfl
      · dsimp only
        split
        · split
          · rfl
          · split
            · exact sent_dispatch_other hmessage
            · rfl
        · rfl
    · rfl

theorem arpReplyFrame_fields {f : Frame} {mac : Mac} {addr senderIp : UInt32}
    {senderMac : List UInt8} (hlength : senderMac.length = 6)
    (h : HoldsAt f.byte 0 (arpReplyFrame mac addr senderMac senderIp)) :
    ntohs (f.u16 12) = ethTypeArp ∧ ntohs (f.u16 20) = arpReply := by
  simp only [arpReplyFrame, holdsAt_append, Mac.length_bytes, length_bytes16,
    length_bytes32, List.length_append, List.length_cons, List.length_nil, hlength,
    Nat.reduceAdd] at h
  rcases h with ⟨⟨⟨⟨⟨⟨⟨⟨⟨⟨⟨_, _⟩, htype⟩, _⟩, _⟩, _⟩, _⟩, hopcode⟩, _⟩, _⟩, _⟩, _⟩
  have h12 : f.bytes 12 2 = bytes16 (htons ethTypeArp) :=
    htype.readBytes (length_bytes16 _)
  have h20 : f.bytes 20 2 = bytes16 (htons arpReply) :=
    hopcode.readBytes (length_bytes16 _)
  rw [Frame.u16_eq_of_bytes h12, Frame.u16_eq_of_bytes h20, ntohs_htons, ntohs_htons]
  exact ⟨rfl, rfl⟩

theorem Ip4Fields.icmpStart {f : Frame} {mac : Mac} {src dst : UInt32} {proto : UInt8}
    {data : Memory} {len : UInt16} (h : Ip4Fields f mac src dst proto data len) :
    Net.icmpStart f = 34 := by
  unfold Net.icmpStart
  rw [h.headerLen]
  rfl

theorem Reply.answerless {bs : List UInt8} (h : Reply bs) {f : Frame}
    (harrives : Arrives bs f) : Answerless f := by
  cases h with
  | arp mac addr senderMac senderIp hlength =>
      rcases arpReplyFrame_fields hlength harrives.bytes with ⟨htype, hopcode⟩
      apply answerless_arp htype
      rw [hopcode]
      decide
  | echo mac src dst data len hlen htype =>
      have hfields := ip4Fields_of_holdsAt harrives.bytes
      have hfirst : f.byte 34 = data 0 := by
        have hbyte := readBytes_eq_iff.mp hfields.payload 0 (by omega)
        exact hbyte
      apply answerless_ip hfields.ethType
      rw [hfields.icmpStart, hfirst, htype]
      decide

/-!
# The network
-/

/-- What the other stations may get of the frames that station `b` sends. -/
structure Broadcast {n : Nat} (b : Fin n) (frames : List Sent)
    (new : List (Fin n × Frame)) : Prop where
  few : new.length ≤ (n - 1) * frames.length
  carried : forall m, m ∈ new -> m.1 ≠ b ∧ exists x, x ∈ frames ∧ Arrives x.frame m.2

/--
Stations with one interface each on the network.  A station passes a frame to
`netif_recv`, and what the stack sends goes out to the others.
-/
def lan {n : Nat} (iface : Fin n -> Nat) : Network (Fin n) Stack Frame where
  receive b s f t new :=
    t = netifRecv s (some (iface b)) (some f) ∧
      exists frames, t.sent = s.sent ++ frames ∧ Broadcast b frames new

open Classical in
/-- A frame that may be answered counts for every station. -/
noncomputable def frameWeight {n : Nat} (m : Fin n × Frame) : Nat :=
  if Answerless m.2 then 1 else n

theorem frameWeight_pos {n : Nat} (m : Fin n × Frame) : 0 < frameWeight m := by
  unfold frameWeight
  split
  · exact Nat.one_pos
  · exact Nat.lt_of_le_of_lt (Nat.zero_le m.1) m.1.isLt

theorem frameWeight_le {n : Nat} (m : Fin n × Frame) : frameWeight m ≤ n := by
  unfold frameWeight
  split
  · exact Nat.lt_of_le_of_lt (Nat.zero_le m.1) m.1.isLt
  · exact Nat.le_refl n

theorem lan_receive_lt {n : Nat} (iface : Fin n -> Nat) {b : Fin n} {s t : Stack}
    {f : Frame} {new : List (Fin n × Frame)}
    (h : (lan iface).receive b s f t new) :
    (new.map frameWeight).sum < frameWeight (b, f) := by
  rcases h with ⟨hrecv, frames, hframes, hbroadcast⟩
  rcases sendsReply_netifRecv s (iface b) f with ⟨frames', hsent, hfew, hreplies⟩
  rw [← hrecv, hframes] at hsent
  have hsame : frames = frames' := List.append_cancel_left hsent
  rw [← hsame] at hfew hreplies
  have hlength := hbroadcast.few
  by_cases hanswerless : Answerless f
  · have hnone : t.sent = s.sent := by
      rw [hrecv]
      exact hanswerless s (iface b)
    have hempty : frames = [] := List.append_right_eq_self.mp (hframes.symm.trans hnone)
    rw [hempty, List.length_nil, Nat.mul_zero] at hlength
    rw [List.length_eq_zero_iff.mp (Nat.le_zero.mp hlength)]
    exact frameWeight_pos (b, f)
  · have hone : forall m, m ∈ new -> frameWeight m = 1 := by
      intro m hm
      rcases (hbroadcast.carried m hm).right with ⟨x, hx, harrives⟩
      exact if_pos ((hreplies x hx).answerless harrives)
    have hsum : (new.map frameWeight).sum = new.length := by
      rw [List.map_congr_left hone]
      simp
    have hweight : frameWeight (b, f) = n := if_neg hanswerless
    have hstation := b.isLt
    have hbound : (n - 1) * frames.length ≤ (n - 1) * 1 :=
      Nat.mul_le_mul_left (n - 1) hfew
    omega

/--
On a network of `n` stations with `m` frames under way nothing moves any more
after at most `n * m` arrivals and losses, in whatever order they happen.
-/
theorem lan_quiesces {n : Nat} (iface : Fin n -> Nat)
    {c d : Network.Config (Fin n) Stack Frame} {k : Nat}
    (h : (lan iface).Steps k c d) : k ≤ n * c.flight.length := by
  have hlength := h.length_le frameWeight_pos
    (fun b s f t new hreceive => lan_receive_lt iface hreceive)
  have hload : Network.load frameWeight c ≤ n * c.flight.length :=
    Network.load_le frameWeight_le
  omega

/-- Two hosts, and an echo request on its way to the second. -/
def requestedLan : Network.Config (Fin 2) Stack Frame :=
  ⟨fun _ => bootStack (upIface (ip4 10 0 2 15)), [(1, fullEcho)]⟩

def requestedWire : Network (Fin 2) Stack Frame := lan fun _ => 0

theorem arrives_ofBytes {bs : List UInt8} (hlen : bs.length < 2 ^ 32) :
    Arrives bs (Frame.ofBytes bs) where
  bytes := holdsAt_getD bs
  long := by
    show bs.length ≤ (UInt32.ofNat bs.length).toNat
    rw [UInt32.toNat_ofNat_of_lt' hlen]

/-- The request arrives, and then the reply to it, and nothing is left. -/
theorem requestedLan_quiesces :
    exists reply d, requestedWire.Step requestedLan
        ⟨Function.update requestedLan.states 1
          (netifRecv (requestedLan.states 1) (some 0) (some fullEcho)),
          [(0, reply)]⟩ ∧
      requestedWire.Steps 2 requestedLan d ∧ d.flight = [] ∧
      2 ≤ 2 * requestedLan.flight.length := by
  rcases sent_netifRecv_request carriesIcmp_fullEcho rfl (canSend_upIface _)
    (by decide) (by decide) with ⟨msg, hsent, hmirrors⟩
  have hlen := hmirrors.length
  have hsmall : (icmpFrame (upIface (ip4 10 0 2 15)) (fullEcho.u32 26)
      msg).length < 2 ^ 32 := by
    simp [icmpFrame, hlen]
  have hreceive : requestedWire.receive 1 (requestedLan.states 1) fullEcho
      (netifRecv (requestedLan.states 1) (some 0) (some fullEcho))
      [(0, Frame.ofBytes (icmpFrame (upIface (ip4 10 0 2 15))
        (fullEcho.u32 26) msg))] := by
    refine ⟨rfl, _, hsent, Nat.le_refl 1, ?_⟩
    intro m hm
    rw [List.mem_singleton.mp hm]
    exact ⟨Fin.zero_ne_one, _, List.mem_singleton_self _, arrives_ofBytes hsmall⟩
  have hfirst : requestedWire.Step requestedLan _ :=
    Network.Step.deliver_head rfl hreceive
  rcases sendsReply_netifRecv (requestedLan.states 0) 0 (Frame.ofBytes
    (icmpFrame (upIface (ip4 10 0 2 15)) (fullEcho.u32 26) msg)) with
    ⟨frames, hframes, _⟩
  have hreceive' : requestedWire.receive 0 (requestedLan.states 0) _ _ [] :=
    ⟨rfl, frames, hframes, Nat.zero_le _, fun _ hm => by cases hm⟩
  have hsteps := Network.Steps.step hfirst (Network.Steps.step
    (Network.Step.deliver_head rfl hreceive')
    (Network.Steps.refl _))
  exact ⟨_, _, hfirst, hsteps, rfl, lan_quiesces _ hsteps⟩

end Net
end EarlnuxOS
