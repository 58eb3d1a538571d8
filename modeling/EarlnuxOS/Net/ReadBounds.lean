import EarlnuxOS.Net.ReceiveSpec

/-!
# Reads of a received frame

Which frames are read only where they have bytes.  The receive path compares the
frame with its two fixed headers and nothing else, so the answer is a condition
on the three lengths the sender chose; a frame that meets it is handled alike
whatever lies behind it in memory.
-/

namespace EarlnuxOS
namespace Net

open Foundation

/-!
# Records within a frame
-/

def Read.Within (r : Read) (n : Nat) : Prop :=
  forall j, j < r.count -> r.start + j < n

/-- No read past `n` bytes, and no length below zero. -/
structure Log.Within (l : Log) (n : Nat) : Prop where
  reads : forall r, r ∈ l.reads -> r.Within n
  noWrap : l.wrapped = false

theorem Read.within_iff {start count n : Nat} (hpos : 0 < count) :
    Read.Within ⟨start, count⟩ n <-> start + count ≤ n := by
  constructor
  · intro h
    have hlast := h (count - 1) (Nat.sub_one_lt_of_lt hpos)
    dsimp only at hlast
    omega
  · intro h j hj
    dsimp only at hj ⊢
    omega

theorem within_touch {s : Stack} {start count n : Nat} (hpos : 0 < count) :
    (s.touch start count).log.Within n <->
      s.log.Within n ∧ start + count ≤ n := by
  rw [← Read.within_iff hpos]
  constructor
  · rintro ⟨hreads, hwrap⟩
    refine ⟨⟨fun r hr => hreads r ?_, hwrap⟩, hreads _ ?_⟩
    · exact List.mem_append_left _ hr
    · exact List.mem_append_right _ List.mem_cons_self
  · rintro ⟨⟨hreads, hwrap⟩, hread⟩
    refine ⟨fun r hr => ?_, hwrap⟩
    rcases List.mem_append.mp hr with hr | hr
    · exact hreads r hr
    · rw [List.mem_singleton.mp hr]
      exact hread

theorem within_touch_of_le {s : Stack} {start count n : Nat}
    (hpos : 0 < count) (h : start + count ≤ n) :
    (s.touch start count).log.Within n <-> s.log.Within n := by
  rw [within_touch hpos]
  exact and_iff_left h

theorem within_noteWrap {s : Stack} {wraps : Bool} {n : Nat} :
    (s.noteWrap wraps).log.Within n <-> s.log.Within n ∧ wraps = false := by
  constructor
  · rintro ⟨hreads, hwrap⟩
    have hboth : s.log.wrapped = false ∧ wraps = false :=
      Bool.or_eq_false_iff.mp hwrap
    exact ⟨⟨hreads, hboth.1⟩, hboth.2⟩
  · rintro ⟨⟨hreads, hwrap⟩, hnone⟩
    exact ⟨hreads, Bool.or_eq_false_iff.mpr ⟨hwrap, hnone⟩⟩

theorem within_noteCall {s : Stack} {call : Handled} {n : Nat} :
    (s.noteCall call).log.Within n <-> s.log.Within n :=
  ⟨fun h => ⟨h.reads, h.noWrap⟩, fun h => ⟨h.reads, h.noWrap⟩⟩

/-!
# The reads of each layer
-/

theorem within_arpRecv {s : Stack} {f : Frame} :
    (arpRecv s f).log.Within f.len.toNat <-> s.log.Within f.len.toNat := by
  unfold arpRecv
  split
  · exact Iff.rfl
  rename_i hlen
  have hle : 42 ≤ f.len.toNat :=
    UInt32.le_iff_toNat_le.mp (UInt32.not_lt.mp hlen)
  have hopcode : forall s : Stack,
      (s.touch 20 2).log.Within f.len.toNat <-> s.log.Within f.len.toNat :=
    fun s => within_touch_of_le (by decide) (by omega)
  have htarget : forall s : Stack,
      (s.touch 38 4).log.Within f.len.toNat <-> s.log.Within f.len.toNat :=
    fun s => within_touch_of_le (by decide) (by omega)
  split
  · exact Iff.rfl
  · dsimp only
    split
    · split
      · rw [log_netifSend]
        show (Stack.log (Stack.touch (Stack.touch _ 28 4) 22 6)).Within _ <-> _
        rw [within_touch_of_le (by decide) (by omega),
          within_touch_of_le (by decide) (by omega), htarget, hopcode]
      · rw [htarget, hopcode]
    · exact hopcode s

/-- The echo request at `data` lies inside the frame, as far as it is read. -/
def EchoFits (f : Frame) (data len : Nat) : Prop :=
  8 ≤ len -> data < f.len.toNat ∧
    (f.byte data = icmpEchoRequest -> data + min len 1024 ≤ f.len.toNat)

theorem toNat_clamp (len : UInt32) :
    (if replyBufSize < len then replyBufSize else len).toNat =
      min len.toNat 1024 := by
  split
  · rename_i h
    have hbig : 1024 < len.toNat := UInt32.lt_iff_toNat_lt.mp h
    exact (Nat.min_eq_right hbig.le).symm
  · rename_i h
    have hsmall : len.toNat ≤ 1024 :=
      UInt32.le_iff_toNat_le.mp (UInt32.not_lt.mp h)
    exact (Nat.min_eq_left hsmall).symm

theorem toNat_sub_icmpHeaderSize {len : UInt32} (h : icmpHeaderSize < len) :
    (len - icmpHeaderSize).toNat = len.toNat - 8 :=
  UInt32.toNat_sub_of_le _ _ (UInt32.le_of_lt h)

/-- The reads of an echo request, once its length is cut to the buffer's. -/
theorem within_echo {s : Stack} {data n : Nat} {len : UInt32}
    (hlen : 8 ≤ len.toNat) :
    (if icmpHeaderSize < len then
        ((s.touch (data + 4) 2).touch (data + 6) 2).touch (data + 8)
          (len - icmpHeaderSize).toNat
      else (s.touch (data + 4) 2).touch (data + 6) 2).log.Within n <->
      s.log.Within n ∧ data + len.toNat ≤ n := by
  have hfields : ((s.touch (data + 4) 2).touch (data + 6) 2).log.Within n <->
      s.log.Within n ∧ data + 8 ≤ n := by
    rw [within_touch (by decide), within_touch (by decide), and_assoc]
    exact and_congr_right fun _ => by omega
  split
  · rename_i h
    have hlt : 8 < len.toNat := UInt32.lt_iff_toNat_lt.mp h
    have hsub := toNat_sub_icmpHeaderSize h
    rw [within_touch (by omega), hfields, and_assoc, hsub]
    exact and_congr_right fun _ => by omega
  · rename_i h
    have hle : len.toNat ≤ 8 :=
      UInt32.le_iff_toNat_le.mp (UInt32.not_lt.mp h)
    rw [hfields]
    exact and_congr_right fun _ => by omega

theorem within_icmpRecv {s : Stack} {f : Frame} {src : UInt32} {data : Nat}
    {len : UInt32} :
    (icmpRecv s f src data len).log.Within f.len.toNat <->
      s.log.Within f.len.toNat ∧ EchoFits f data len.toNat := by
  unfold icmpRecv EchoFits
  split
  · rename_i hshort
    have hlt : len.toNat < 8 := UInt32.lt_iff_toNat_lt.mp hshort
    exact (and_iff_left fun h => absurd hlt (Nat.not_lt.mpr h)).symm
  rename_i hlong
  have hle : 8 ≤ len.toNat :=
    UInt32.le_iff_toNat_le.mp (UInt32.not_lt.mp hlong)
  have htype : (s.touch data 1).log.Within f.len.toNat <->
      s.log.Within f.len.toNat ∧ data < f.len.toNat := within_touch (by decide)
  dsimp only
  split
  · rename_i hecho
    have hcut := toNat_clamp len
    rw [log_ip4Send]
    show (Stack.log (if icmpHeaderSize < _ then _ else _)).Within _ <-> _
    rw [within_echo (by omega), htype, hcut]
    constructor
    · rintro ⟨⟨hs, hdata⟩, hend⟩
      exact ⟨hs, fun _ => ⟨hdata, fun _ => hend⟩⟩
    · rintro ⟨hs, hfits⟩
      exact ⟨⟨hs, (hfits hle).1⟩, (hfits hle).2 hecho⟩
  · rename_i hother
    rw [htype]
    constructor
    · rintro ⟨hs, hdata⟩
      exact ⟨hs, fun _ => ⟨hdata, fun h => absurd h hother⟩⟩
    · rintro ⟨hs, hfits⟩
      exact ⟨hs, (hfits hle).1⟩

/-!
# IPv4 and the whole path
-/

structure LengthsFit (f : Frame) : Prop where
  header : (headerLen f).toNat ≤ (totalLen f).toNat
  echo : f.byte 23 = ipProtoIcmp ->
    EchoFits f (14 + (headerLen f).toNat)
      ((totalLen f).toNat - (headerLen f).toNat)

/-- The lengths of a frame are right, if the stack takes it for an IPv4 one. -/
def LengthsAgree (s : Stack) (i : Nat) (f : Frame) : Prop :=
  ethForUs (s.ifaces i).mac f -> ntohs (f.u16 12) = ethTypeIp ->
    TakenByIp4 s f -> LengthsFit f

theorem within_dispatch {s : Stack} {f : Frame} {payload : Nat}
    {payloadLen : UInt32} (hlong : 34 ≤ f.len.toNat) :
    (dispatch s f payload payloadLen).log.Within f.len.toNat <->
      s.log.Within f.len.toNat ∧
        (f.byte 23 = ipProtoIcmp -> EchoFits f payload payloadLen.toNat) := by
  have hcall : forall call,
      ((s.touch 26 4).noteCall call).log.Within f.len.toNat <->
        s.log.Within f.len.toNat := by
    intro call
    rw [within_noteCall]
    exact within_touch_of_le (by decide) (by omega)
  unfold dispatch
  dsimp only
  split
  · rename_i hicmp
    rw [within_icmpRecv, hcall]
    exact and_congr_right fun _ => ⟨fun h _ => h, fun h => h hicmp⟩
  · rename_i hother
    have hnone : f.byte 23 = ipProtoIcmp ->
        EchoFits f payload payloadLen.toNat := fun h => absurd h hother
    rw [and_iff_left hnone]
    split
    · exact hcall _
    · split
      · exact hcall _
      · exact Iff.rfl

theorem toNat_payloadLen {f : Frame}
    (h : (headerLen f).toNat ≤ (totalLen f).toNat) :
    (totalLen f - headerLen f).toNat =
      (totalLen f).toNat - (headerLen f).toNat :=
  UInt32.toNat_sub_of_le _ _ (UInt32.le_iff_toNat_le.mpr h)

theorem within_ip4Recv {s : Stack} {f : Frame}
    (hs : s.log.Within f.len.toNat) :
    (ip4Recv s f).log.Within f.len.toNat <->
      (TakenByIp4 s f -> LengthsFit f) := by
  unfold ip4Recv
  split
  · rename_i hshort
    have hlt : f.len.toNat < 34 := UInt32.lt_iff_toNat_lt.mp hshort
    exact iff_of_true hs fun h => absurd hlt (Nat.not_lt.mpr h.long)
  rename_i hlen
  have hlong : 34 ≤ f.len.toNat :=
    UInt32.le_iff_toNat_le.mp (UInt32.not_lt.mp hlen)
  have hread : forall {s : Stack} {start count : Nat}, 0 < count ->
      start + count ≤ 34 -> s.log.Within f.len.toNat ->
      (s.touch start count).log.Within f.len.toNat :=
    fun hpos hend h => (within_touch_of_le hpos (by omega)).mpr h
  dsimp only
  split
  · rename_i hversion
    split
    · rename_i hnone
      refine iff_of_true (hread (by decide) (by decide) hs) fun h => ?_
      rcases h.dst with ⟨k, hk, _⟩
      cases hnone.symm.trans hk
    · rename_i k hk
      split
      · rename_i hdst
        have htaken : TakenByIp4 s f := ⟨hlong, hversion, k, hk, hdst⟩
        rw [within_dispatch hlong, within_touch_of_le (by decide) (by omega),
          within_noteWrap]
        constructor
        · rintro ⟨⟨_, hno⟩, hecho⟩ _
          have hle : (headerLen f).toNat ≤ (totalLen f).toNat :=
            Nat.not_lt.mp fun hlt =>
              of_decide_eq_false hno (UInt32.lt_iff_toNat_lt.mpr hlt)
          rw [toNat_payloadLen hle] at hecho
          exact ⟨hle, hecho⟩
        · intro h
          rcases h htaken with ⟨hle, hecho⟩
          rw [← toNat_payloadLen hle] at hecho
          have hno : decide (totalLen f < headerLen f) = false :=
            decide_eq_false fun hlt =>
              Nat.not_lt.mpr hle (UInt32.lt_iff_toNat_lt.mp hlt)
          refine ⟨⟨?_, hno⟩, hecho⟩
          exact hread (by decide) (by decide)
            (hread (by decide) (by decide) (hread (by decide) (by decide) hs))
      · rename_i hdst
        refine iff_of_true (hread (by decide) (by decide)
          (hread (by decide) (by decide) hs)) fun h => ?_
        rcases h.dst with ⟨k', hk', hdst'⟩
        cases Option.some.inj (hk.symm.trans hk')
        exact absurd hdst' hdst
  · rename_i hversion
    exact iff_of_true (hread (by decide) (by decide) hs) fun h =>
      absurd h.version hversion

theorem within_ethRecv {s : Stack} {i : Nat} {f : Frame}
    (hs : s.log.Within f.len.toNat) :
    (ethRecv s i f).log.Within f.len.toNat <-> LengthsAgree s i f := by
  unfold ethRecv LengthsAgree
  split
  · rename_i hshort
    have hlt : f.len.toNat < 14 := UInt32.lt_iff_toNat_lt.mp hshort
    refine iff_of_true hs fun _ _ h => absurd h.long ?_
    omega
  rename_i hlen
  have hle : 14 ≤ f.len.toNat :=
    UInt32.le_iff_toNat_le.mp (UInt32.not_lt.mp hlen)
  have hread : ((s.touch 12 2).touch 0 ethAlen).log.Within f.len.toNat := by
    have hmac : 0 + ethAlen ≤ f.len.toNat := by
      unfold ethAlen
      omega
    rw [within_touch_of_le (by decide) hmac,
      within_touch_of_le (by decide) (by omega)]
    exact hs
  dsimp only
  split
  · rename_i hmac
    split
    · rename_i harp
      refine iff_of_true (within_arpRecv.mpr hread) fun _ hip => ?_
      cases harp.symm.trans hip
    · split
      · rename_i hip
        rw [within_ip4Recv hread]
        exact ⟨fun h _ _ ht => h ⟨ht.long, ht.version, ht.dst⟩,
          fun h ht => h hmac hip ⟨ht.long, ht.version, ht.dst⟩⟩
      · rename_i hip
        exact iff_of_true hread fun _ h => absurd h hip
  · rename_i hmac
    exact iff_of_true hread fun h => absurd h hmac

/-!
# Frames with the same bytes
-/

/-- Two frames of one length that differ at most in what lies behind them. -/
structure SameFrame (f g : Frame) : Prop where
  len : g.len = f.len
  byte : forall j, j < f.len.toNat -> g.byte j = f.byte j

namespace SameFrame

theorem bytes {f g : Frame} (h : SameFrame f g) (start : Nat)
    {count : Nat} (hend : start + count ≤ f.len.toNat) :
    g.bytes start count = f.bytes start count := by
  apply readBytes_congr
  intro j hj
  exact h.byte (start + j) (by omega)

theorem u16 {f g : Frame} (h : SameFrame f g) (start : Nat)
    (hend : start + 2 ≤ f.len.toNat) : g.u16 start = f.u16 start := by
  unfold Frame.u16
  rw [h.bytes start hend]

theorem u32 {f g : Frame} (h : SameFrame f g) (start : Nat)
    (hend : start + 4 ≤ f.len.toNat) : g.u32 start = f.u32 start := by
  unfold Frame.u32
  rw [h.bytes start hend]

theorem arpRecv {f g : Frame} (h : SameFrame f g) (s : Stack) :
    arpRecv s g = arpRecv s f := by
  unfold Net.arpRecv
  rw [h.len]
  split
  · rfl
  rename_i hlen
  have hle : 42 ≤ f.len.toNat :=
    UInt32.le_iff_toNat_le.mp (UInt32.not_lt.mp hlen)
  rw [h.u16 20 (by omega), h.u32 38 (by omega),
    h.u32 28 (by omega), h.bytes 22 (by omega)]

theorem echoReply {f g : Frame} (h : SameFrame f g) (buf : Static)
    {data : Nat} {len : UInt32} (hmin : 8 ≤ len.toNat)
    (hend : data + len.toNat ≤ f.len.toNat) :
    echoReply buf g data len = echoReply buf f data len := by
  have hid := h.u16 (data + 4) (by omega)
  have hseq := h.u16 (data + 6) (by omega)
  unfold Net.echoReply
  rw [hid, hseq]
  dsimp only
  split
  · rename_i hlt
    have hsub := toNat_sub_icmpHeaderSize hlt
    rw [h.bytes (data + 8) (by omega)]
  · rfl

theorem icmpRecv {f g : Frame} (h : SameFrame f g) (s : Stack)
    (src : UInt32) {data : Nat} {len : UInt32}
    (hfits : EchoFits f data len.toNat) :
    icmpRecv s g src data len = icmpRecv s f src data len := by
  unfold Net.icmpRecv
  split
  · rfl
  rename_i hlong
  have hle : 8 ≤ len.toNat :=
    UInt32.le_iff_toNat_le.mp (UInt32.not_lt.mp hlong)
  rcases hfits hle with ⟨hdata, hecho⟩
  rw [h.byte data hdata]
  dsimp only
  split
  · rename_i htype
    have hend := hecho htype
    have hcut := toNat_clamp len
    rw [h.echoReply _ (by omega) (by omega)]
  · rfl

theorem dispatch {f g : Frame} (h : SameFrame f g) (s : Stack)
    {payload : Nat} {payloadLen : UInt32} (hlong : 34 ≤ f.len.toNat)
    (hfits : f.byte 23 = ipProtoIcmp ->
      EchoFits f payload payloadLen.toNat) :
    dispatch s g payload payloadLen = dispatch s f payload payloadLen := by
  unfold Net.dispatch
  rw [h.u32 26 (by omega), h.byte 23 (by omega)]
  dsimp only
  split
  · rename_i hicmp
    exact h.icmpRecv _ _ (hfits hicmp)
  · split
    · rfl
    · split <;> rfl

theorem ip4Recv {f g : Frame} (h : SameFrame f g) (s : Stack)
    (hfit : TakenByIp4 s f -> LengthsFit f) : ip4Recv s g = ip4Recv s f := by
  unfold Net.ip4Recv
  rw [h.len]
  split
  · rfl
  rename_i hlen
  have hlong : 34 ≤ f.len.toNat :=
    UInt32.le_iff_toNat_le.mp (UInt32.not_lt.mp hlen)
  have hbyte := h.byte 14 (by omega)
  have hversion : ip4Version g = ip4Version f := by
    unfold ip4Version
    rw [hbyte]
  have hheader : headerLen g = headerLen f := by
    unfold headerLen ip4Ihl
    rw [hbyte]
  have htotal : totalLen g = totalLen f := by
    unfold totalLen
    rw [h.u16 16 (by omega)]
  have hdst : forall addr, ip4ForUs addr g <-> ip4ForUs addr f := by
    intro addr
    unfold ip4ForUs
    rw [h.u32 30 (by omega)]
  rw [hversion, hheader, htotal]
  simp only [hdst]
  split
  · rename_i hv
    split
    · rfl
    · rename_i k hk
      split
      · rename_i hours
        have hlens := hfit ⟨hlong, hv, k, hk, hours⟩
        apply h.dispatch _ hlong
        rw [toNat_payloadLen hlens.header]
        exact hlens.echo
      · rfl
  · rfl

theorem ethRecv {f g : Frame} (h : SameFrame f g) {s : Stack} {i : Nat}
    (hagree : LengthsAgree s i f) : ethRecv s i g = ethRecv s i f := by
  unfold Net.ethRecv
  rw [h.len]
  split
  · rfl
  rename_i hlen
  have hle : 14 ≤ f.len.toNat :=
    UInt32.le_iff_toNat_le.mp (UInt32.not_lt.mp hlen)
  have hmac : forall mac, ethForUs mac g <-> ethForUs mac f := by
    intro mac
    unfold ethForUs ethAlen
    rw [h.bytes 0 (by omega)]
  rw [h.u16 12 (by omega)]
  simp only [hmac]
  split
  · rename_i hours
    split
    · exact h.arpRecv _
    · split
      · rename_i htype
        apply h.ip4Recv
        intro ht
        exact hagree hours htype ⟨ht.long, ht.version, ht.dst⟩
      · rfl
  · rfl

end SameFrame

/-!
# The interface
-/

theorem lengthsAgree_received {s : Stack} {i : Nat} {len : UInt32}
    {f : Frame} :
    LengthsAgree (s.setIface i ((s.ifaces i).received len)) i f <->
      LengthsAgree s i f := by
  unfold LengthsAgree
  rw [mac_setIface_received, takenByIp4_received]

theorem lengthsAgree_forget {s : Stack} {i : Nat} {f : Frame} :
    LengthsAgree s.forget i f <-> LengthsAgree s i f :=
  ⟨fun h hmac htype ht => h hmac htype ⟨ht.long, ht.version, ht.dst⟩,
    fun h hmac htype ht => h hmac htype ⟨ht.long, ht.version, ht.dst⟩⟩

theorem within_netifRecv {s : Stack} {i : Nat} {f : Frame} :
    (netifRecv s.forget (some i) (some f)).log.Within f.len.toNat <->
      LengthsAgree s i f := by
  have hempty : (s.forget.setIface i ((s.forget.ifaces i).received
      f.len)).log.Within f.len.toNat := ⟨fun r hr => (by cases hr), rfl⟩
  unfold netifRecv
  rw [within_ethRecv hempty, lengthsAgree_received, lengthsAgree_forget]

/-- A frame whose lengths agree is handled alike whatever lies behind it. -/
theorem netifRecv_sameFrame {s : Stack} {i : Nat} {f g : Frame}
    (hagree : LengthsAgree s i f) (h : SameFrame f g) :
    netifRecv s (some i) (some g) = netifRecv s (some i) (some f) := by
  unfold netifRecv
  dsimp only
  rw [h.len]
  exact h.ethRecv (lengthsAgree_received.mpr hagree)

/-!
# Bounds
-/

/-- Nothing outside the frame is read, and so nothing of it is sent. -/
structure InBounds (s : Stack) (i : Nat) (f : Frame) : Prop where
  reads : forall r,
    r ∈ (netifRecv s.forget (some i) (some f)).log.reads ->
      forall j, j < r.count -> r.start + j < f.len.toNat
  noWrap : (netifRecv s.forget (some i) (some f)).log.wrapped = false
  noLeak : forall g, SameFrame f g ->
    (netifRecv s (some i) (some g)).sent =
      (netifRecv s (some i) (some f)).sent

theorem InBounds.lengthsAgree {s : Stack} {i : Nat} {f : Frame}
    (h : InBounds s i f) : LengthsAgree s i f :=
  within_netifRecv.mp ⟨h.reads, h.noWrap⟩

theorem inBounds_iff (s : Stack) (i : Nat) (f : Frame) :
    InBounds s i f <-> LengthsAgree s i f := by
  constructor
  · exact InBounds.lengthsAgree
  · intro hagree
    have hwithin := within_netifRecv.mpr hagree
    refine ⟨hwithin.reads, hwithin.noWrap, fun g hg => ?_⟩
    rw [netifRecv_sameFrame hagree hg]

/-- An echo request of 42 bytes whose header claims 1500. -/
def shortEcho : Frame :=
  Frame.ofBytes
    ([255, 255, 255, 255, 255, 255, 2, 0, 0, 0, 0, 2, 8, 0] ++
      [69, 0, 5, 220, 0, 0, 64, 0, 64, 1, 0, 0, 10, 0, 2, 2,
        255, 255, 255, 255] ++
      [8, 0, 0, 0, 0, 1, 0, 1])

theorem shortEcho_not_inBounds :
    ¬ InBounds (bootStack (upIface (ip4 10 0 2 15))) 0 shortEcho := by
  intro h
  have htaken : TakenByIp4 (bootStack (upIface (ip4 10 0 2 15))) shortEcho :=
    ⟨by decide, by decide, 0, rfl, Or.inr (by decide)⟩
  have hfit := h.lengthsAgree (Or.inr (by decide)) (by decide) htaken
  have hend := (hfit.echo (by decide) (by decide)).2 (by decide)
  exact absurd hend (by decide)

end Net
end EarlnuxOS
