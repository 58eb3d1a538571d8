import EarlnuxOS.Foundation.OnesComplement
import EarlnuxOS.Net.ReadBounds
import EarlnuxOS.Net.SendSpec

/-!
# ICMP checksums

`icmp_checksum` adds up little-endian words, and a receiver adds up big-endian
ones.  With the checksum stored the little-endian sum is zero modulo 65535, and
so is the other one.
-/

namespace EarlnuxOS
namespace Net

open Foundation

def rfc1071Sum (bs : List UInt8) : Nat := onesSum (beWords bs)

/-!
# What the code adds up
-/

theorem toNat_sumWords (data : Memory) (p len : Nat) (sum : UInt32)
    (h : sum.toNat + 65535 * len < 2 ^ 32) :
    (sumWords data p len sum).toNat =
      sum.toNat + (leWords (readBytes data p len)).sum := by
  induction p, len, sum using sumWords.induct data with
  | case1 p sum => rfl
  | case2 p sum =>
      have hbyte := (data p).toNat_lt
      have hread : readBytes data p 1 = [data p] := readBytes_succ data p 0
      rw [sumWords, hread, leWords, List.sum_singleton, UInt32.toNat_add,
        UInt8.toNat_toUInt32, Nat.mod_eq_of_lt (by omega)]
  | case3 p len sum ih =>
      have hlow := (data p).toNat_lt
      have hhigh := (data (p + 1)).toNat_lt
      have hword : leNum (readBytes data p 2) =
          (data p).toNat + 256 * (data (p + 1)).toNat := by
        rw [readBytes_succ, readBytes_succ]
        rfl
      have hsum : (sum + UInt32.ofNat (leNum (readBytes data p 2))).toNat =
          sum.toNat + ((data p).toNat + 256 * (data (p + 1)).toNat) := by
        rw [UInt32.toNat_add, UInt32.toNat_ofNat_of_lt' (by
          rw [hword]
          show _ < 2 ^ 32
          omega), hword, Nat.mod_eq_of_lt (by omega)]
      rw [sumWords, ih (by omega), hsum, readBytes_succ, readBytes_succ,
        leWords, List.sum_cons, Nat.add_assoc]

theorem foldCarry_spec (sum : UInt32) :
    (foldCarry sum).toNat < 2 ^ 16 ∧
      (foldCarry sum).toNat % 65535 = sum.toNat % 65535 ∧
      ((foldCarry sum).toNat = 0 <-> sum.toNat = 0) := by
  have hs := sum.toNat_lt
  have hhigh : (sum >>> 16).toNat = sum.toNat / 2 ^ 16 := by
    rw [UInt32.toNat_shiftRight]
    exact Nat.shiftRight_eq_div_pow sum.toNat 16
  induction sum using foldCarry.induct with
  | case1 sum hzero =>
      rw [foldCarry, if_pos hzero]
      rw [hzero] at hhigh
      have hsmall : sum.toNat < 2 ^ 16 := by
        have hdiv : sum.toNat / 2 ^ 16 = 0 := hhigh.symm
        omega
      exact ⟨hsmall, rfl, Iff.rfl⟩
  | case2 sum hne ih =>
      have hlow : (sum &&& (0xFFFF : UInt32)).toNat = sum.toNat % 2 ^ 16 := by
        rw [UInt32.toNat_and]
        exact Nat.and_two_pow_sub_one_eq_mod sum.toNat 16
      have hnext : ((sum &&& (0xFFFF : UInt32)) + (sum >>> 16)).toNat =
          sum.toNat % 2 ^ 16 + sum.toNat / 2 ^ 16 := by
        rw [UInt32.toNat_add, hlow, hhigh, Nat.mod_eq_of_lt (by omega)]
      rw [foldCarry, if_neg hne]
      rcases ih (UInt32.toNat_lt _) (by
        rw [UInt32.toNat_shiftRight]
        exact Nat.shiftRight_eq_div_pow _ 16) with ⟨hlt, hmod, hzero⟩
      rw [hnext] at hmod hzero
      exact ⟨hlt, by omega, by omega⟩

/-- The checksum makes up for the sum of the message, and is not zero without need. -/
theorem icmpChecksum_spec {data : Memory} {len : Nat} (hlen : len ≤ 1480) :
    exists s, (icmpChecksum data len).toNat = 65535 - s ∧ s ≤ 65535 ∧
      s % 65535 = (leWords (readBytes data 0 len)).sum % 65535 ∧
      (s = 0 <-> (leWords (readBytes data 0 len)).sum = 0) := by
  have hsum := toNat_sumWords data 0 len 0 (by
    rw [UInt32.toNat_zero]
    omega)
  rw [UInt32.toNat_zero, Nat.zero_add] at hsum
  rcases foldCarry_spec (sumWords data 0 len 0) with ⟨hlt, hmod, hzero⟩
  rw [hsum] at hmod hzero
  refine ⟨(foldCarry (sumWords data 0 len 0)).toNat, ?_, by omega, hmod, hzero⟩
  unfold icmpChecksum
  rw [UInt16.toNat_not, UInt32.toNat_toUInt16, Nat.mod_eq_of_lt hlt]
  rfl

/-!
# The checksum in the message
-/

theorem sum_leWords_word {as : List UInt8} (h : as.length = 2)
    (bs : List UInt8) :
    (leWords (as ++ bs)).sum = leNum as + (leWords bs).sum := by
  match as, h with
  | [a, b], _ =>
      show (leWords (a :: b :: bs)).sum = _
      rw [leWords, List.sum_cons]
      rfl

theorem readBytes_split (m : Memory) {n : Nat} (hn : 8 ≤ n) :
    readBytes m 0 n =
      readBytes m 0 2 ++ (readBytes m 2 2 ++ readBytes m 4 (n - 4)) := by
  have hlen : readBytes m 0 n = readBytes m 0 (2 + (2 + (n - 4))) := by
    rw [show 2 + (2 + (n - 4)) = n by omega]
  rw [hlen, readBytes_add, readBytes_add]

theorem sum_leWords_store (m : Memory) {n : Nat} (hn : 8 ≤ n) (c : UInt16)
    (hzero : readBytes m 2 2 = [0, 0]) :
    (leWords (readBytes (writeBytes m 2 (bytes16 c)) 0 n)).sum =
      c.toNat + (leWords (readBytes m 0 n)).sum := by
  have hfront : readBytes (writeBytes m 2 (bytes16 c)) 0 2 = readBytes m 0 2 :=
    readBytes_writeBytes_disjoint m (Or.inr (Nat.le_refl 2))
  have hback : readBytes (writeBytes m 2 (bytes16 c)) 4 (n - 4) =
      readBytes m 4 (n - 4) :=
    readBytes_writeBytes_disjoint m (Or.inl (by rw [length_bytes16]))
  have hword : readBytes (writeBytes m 2 (bytes16 c)) 2 2 = bytes16 c := by
    have hself := readBytes_writeBytes_self m 2 (bytes16 c)
    rw [length_bytes16] at hself
    exact hself
  have hnum : leNum (bytes16 c) = c.toNat := leNum_leBytes_of_lt c.toNat_lt
  have hnone : leNum [(0 : UInt8), 0] = 0 := rfl
  rw [readBytes_split _ hn, readBytes_split m hn, hfront, hback, hword, hzero,
    sum_leWords_word (length_readBytes _ _ _),
    sum_leWords_word (length_bytes16 c),
    sum_leWords_word (length_readBytes _ _ _), sum_leWords_word rfl, hnum, hnone]
  omega

theorem rfc1071Sum_store {m : Memory} {n : Nat} (h8 : 8 ≤ n) (hn : n ≤ 1480)
    (hzero : readBytes m 2 2 = [0, 0]) :
    rfc1071Sum (readBytes (writeBytes m 2 (bytes16 (icmpChecksum m n))) 0 n) =
      0xFFFF := by
  rcases @icmpChecksum_spec m n hn with ⟨s, hsum, hle, hmod, hnone⟩
  apply onesSum_beWords
  · rw [sum_leWords_store m h8 _ hzero, hsum]
    omega
  · rw [sum_leWords_store m h8 _ hzero, hsum]
    omega

/-!
# Messages sent
-/

/-- The part of a frame behind the Ethernet and the IPv4 header. -/
def icmpPart (frame : List UInt8) : List UInt8 := frame.drop 34

theorem icmpPart_ip4Frame (mac : Mac) (src dst : UInt32) (proto : UInt8)
    (data : Memory) (len : UInt16) :
    icmpPart (ip4Frame mac src dst proto data len) =
      readBytes data 0 len.toNat := by
  unfold icmpPart ip4Frame
  apply List.drop_left'
  rw [List.length_append, length_ethHeader, length_ip4Header]

/-- The new frames, and that the checksum of each is right. -/
def SendsVerified (before after : Stack) : Prop :=
  exists frames, after.sent = before.sent ++ frames ∧
    forall f, f ∈ frames -> rfc1071Sum (icmpPart f.frame) = 0xFFFF

theorem sendsVerified_ip4Send {before s : Stack} (hs : s.sent = before.sent)
    (dst : UInt32) (proto : UInt8) {data : Memory} {len : UInt16}
    (hlen : len.toNat ≤ 1480)
    (hsum : rfc1071Sum (readBytes data 0 len.toNat) = 0xFFFF) :
    SendsVerified before (ip4Send s dst proto data len).1 := by
  rcases sent_ip4Send_cases s dst proto data hlen with hsent | ⟨i, _, hsent⟩
  · exact ⟨[], by rw [hsent, hs, List.append_nil], List.forall_mem_nil _⟩
  · refine ⟨_, by rw [hsent, hs], List.forall_mem_singleton.mpr ?_⟩
    rw [icmpPart_ip4Frame]
    exact hsum

/-- The header of a message written piece by piece, with no checksum yet. -/
def MessageStart (b : Static) : Prop :=
  readBytes b.byte 2 2 = [0, 0]

theorem messageStart_write {b : Static} {start : Nat} {bs : List UInt8}
    (h : MessageStart b) (hstart : 4 ≤ start) :
    MessageStart (b.write start bs) :=
  (readBytes_writeBytes_disjoint b.byte (Or.inr hstart)).trans h

theorem messageStart_zero (b : Static) :
    MessageStart (b.write 2 (bytes16 0)) :=
  readBytes_writeBytes_self b.byte 2 (bytes16 0)

theorem sendsVerified_icmpPing (s : Stack) (dst : UInt32) (id seq : UInt16) :
    SendsVerified s (icmpPing s dst id seq).1 := by
  have hstart : MessageStart ((((((s.pingBuf.write 0 [icmpEchoRequest]).write 1
      [0]).write 2 (bytes16 0)).write 4 (bytes16 id)).write 6
      (bytes16 seq)).write 8 pingPayload) :=
    messageStart_write (messageStart_write (messageStart_write
      (messageStart_zero _) (by decide)) (by decide)) (by decide)
  unfold icmpPing
  apply sendsVerified_ip4Send rfl _ _ (by decide)
  exact rfc1071Sum_store (by decide) (by decide) hstart

theorem echoReply_verified (buf : Static) (f : Frame) (data : Nat)
    {len : UInt32} (h8 : 8 ≤ len.toNat) (hlen : len.toNat ≤ 1480) :
    rfc1071Sum (readBytes (echoReply buf f data len).byte 0 len.toNat) =
      0xFFFF := by
  unfold echoReply
  apply rfc1071Sum_store h8 hlen
  have hstart : MessageStart (((((buf.write 0 [icmpEchoReply]).write 1
      [0]).write 2 (bytes16 0)).write 4 (bytes16 (f.u16 (data + 4)))).write 6
      (bytes16 (f.u16 (data + 6)))) :=
    messageStart_write (messageStart_write (messageStart_zero _) (by decide))
      (by decide)
  split
  · exact messageStart_write hstart (by decide)
  · exact hstart

/-- The length of the reply to a request of length `len`. -/
def replyLen (len : UInt32) : UInt32 :=
  if replyBufSize < len then replyBufSize else len

theorem toNat_replyLen (len : UInt32) :
    (replyLen len).toNat = min len.toNat 1024 :=
  toNat_clamp len

theorem toNat_replyLen_toUInt16 (len : UInt32) :
    (replyLen len).toUInt16.toNat = min len.toNat 1024 := by
  rw [UInt32.toNat_toUInt16, toNat_replyLen]
  exact Nat.mod_eq_of_lt (by omega)

/-- A request is answered from a stack that differs in records and buffers. -/
theorem icmpRecv_echo (s : Stack) {f : Frame} (src : UInt32) {data : Nat}
    {len : UInt32} (hlen : 8 ≤ len.toNat)
    (htype : f.byte data = icmpEchoRequest) :
    exists t : Stack,
      icmpRecv s f src data len =
        (ip4Send t src ipProtoIcmp
          (echoReply s.replyBuf f data (replyLen len)).byte
          (replyLen len).toUInt16).1 ∧
      t.sent = s.sent ∧ t.defaultIface = s.defaultIface ∧
      t.ifaces = s.ifaces := by
  have hlong : ¬ len < icmpHeaderSize := fun hlt =>
    Nat.not_lt.mpr hlen (UInt32.lt_iff_toNat_lt.mp hlt)
  unfold icmpRecv replyLen
  rw [if_neg hlong]
  dsimp only
  rw [if_pos htype]
  generalize (if replyBufSize < len then replyBufSize else len) = cut
  by_cases hpayload : icmpHeaderSize < cut
  · simp only [if_pos hpayload]
    exact ⟨_, rfl, rfl, rfl, rfl⟩
  · simp only [if_neg hpayload]
    exact ⟨_, rfl, rfl, rfl, rfl⟩

theorem sent_icmpRecv_other {s : Stack} {f : Frame} {src : UInt32}
    {data : Nat} {len : UInt32}
    (h : len.toNat < 8 ∨ f.byte data ≠ icmpEchoRequest) :
    (icmpRecv s f src data len).sent = s.sent := by
  unfold icmpRecv
  split
  · rfl
  · rename_i hlong
    dsimp only
    split
    · rename_i htype
      have hle : 8 ≤ len.toNat :=
        UInt32.le_iff_toNat_le.mp (UInt32.not_lt.mp hlong)
      rcases h with hlt | hother
      · exact absurd hle (Nat.not_le.mpr hlt)
      · exact absurd htype hother
    · rfl

theorem sendsVerified_icmpRecv (s : Stack) (f : Frame) (src : UInt32)
    (data : Nat) (len : UInt32) :
    SendsVerified s (icmpRecv s f src data len) := by
  by_cases h : 8 ≤ len.toNat ∧ f.byte data = icmpEchoRequest
  · rcases h with ⟨hlen, htype⟩
    rcases icmpRecv_echo s src hlen htype with
      ⟨t, heq, hsent, _, _⟩
    have hcut := toNat_replyLen len
    have hcut16 := toNat_replyLen_toUInt16 len
    rw [heq]
    apply sendsVerified_ip4Send hsent
    · omega
    · rw [hcut16, ← hcut]
      exact echoReply_verified _ f data (by omega) (by omega)
  · have hother : len.toNat < 8 ∨ f.byte data ≠ icmpEchoRequest := by
      by_cases hlen : 8 ≤ len.toNat
      · exact Or.inr fun htype => h ⟨hlen, htype⟩
      · exact Or.inl (Nat.not_le.mp hlen)
    refine ⟨[], ?_, List.forall_mem_nil _⟩
    rw [sent_icmpRecv_other hother, List.append_nil]

/-- A peer accepts every checksum the code stores and every message it sends. -/
theorem icmpChecksum_verifies (m : Memory) {n : Nat} (h8 : 8 ≤ n)
    (hn : n ≤ 1480) (hzero : readBytes m 2 2 = [0, 0]) :
    rfc1071Sum (readBytes (writeBytes m 2 (bytes16 (icmpChecksum m n))) 0 n) =
        0xFFFF ∧
      (forall (s : Stack) (dst : UInt32) (id seq : UInt16),
        SendsVerified s (icmpPing s dst id seq).1) ∧
      forall (s : Stack) (f : Frame) (src : UInt32) (data : Nat)
        (len : UInt32), SendsVerified s (icmpRecv s f src data len) :=
  ⟨rfc1071Sum_store h8 hn hzero, sendsVerified_icmpPing,
    sendsVerified_icmpRecv⟩

def letter : Memory := fun i =>
  [icmpEchoRequest, 0, 0, 0, 0x12, 0x34, 0x00, 0x01, 0x41].getD i 0

theorem icmpChecksum_verifies_letter :
    rfc1071Sum (readBytes (writeBytes letter 2
        (bytes16 (icmpChecksum letter 9))) 0 9) = 0xFFFF ∧
      (forall (s : Stack) (dst : UInt32) (id seq : UInt16),
        SendsVerified s (icmpPing s dst id seq).1) ∧
      forall (s : Stack) (f : Frame) (src : UInt32) (data : Nat)
        (len : UInt32), SendsVerified s (icmpRecv s f src data len) :=
  icmpChecksum_verifies letter (by decide) (by decide) rfl

end Net
end EarlnuxOS
