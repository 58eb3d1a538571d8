import EarlnuxOS.Net.Stack

/-!
# The receive path

`netif_recv`, `eth_recv`, `arp_recv`, `ip4_recv` and `icmp_recv`, with each read
of the received frame noted beside the code that makes it.
-/

namespace EarlnuxOS
namespace Net

open Foundation

/-!
# The record of a run
-/

def Stack.touch (s : Stack) (start count : Nat) : Stack :=
  { s with log := { s.log with reads := s.log.reads ++ [⟨start, count⟩] } }

def Stack.noteWrap (s : Stack) (wraps : Bool) : Stack :=
  { s with log := { s.log with wrapped := s.log.wrapped || wraps } }

def Stack.noteCall (s : Stack) (call : Handled) : Stack :=
  { s with log := { s.log with handled := s.log.handled ++ [call] } }

def Stack.forget (s : Stack) : Stack :=
  { s with log := ⟨[], false, []⟩ }

/-!
# ARP
-/

def arpRecv (s : Stack) (f : Frame) : Stack :=
  if f.len < ethHeaderSize + arpPacketSize then s
  else
    match netifGetDefault s with
    | none => s
    | some i =>
        let s := s.touch 20 2
        let opcode := ntohs (f.u16 20)
        if opcode = arpRequest then
          let s := s.touch 38 4
          if f.u32 38 = (s.ifaces i).addr then
            let s := s.touch 28 4
            let s := s.touch 22 6
            let iface := s.ifaces i
            let senderMac := f.bytes 22 6
            let reply := s.arpReplyBuf.write 0 senderMac
            let reply := reply.write 6 iface.mac.bytes
            let reply := reply.write 12 (bytes16 (htons ethTypeArp))
            let reply := reply.write 14 (bytes16 (htons arpHwEth))
            let reply := reply.write 16 (bytes16 (htons ethTypeIp))
            let reply := reply.write 18 [UInt8.ofNat ethAlen]
            let reply := reply.write 19 [4]
            let reply := reply.write 20 (bytes16 (htons arpReply))
            let reply := reply.write 22 iface.mac.bytes
            let reply := reply.write 28 (bytes32 iface.addr)
            let reply := reply.write 32 senderMac
            let reply := reply.write 38 (bytes32 (f.u32 28))
            (netifSend { s with arpReplyBuf := reply } (some i) reply.byte
              (ethHeaderSize + arpPacketSize)).1
          else s
        else s

/-!
# ICMP, UDP and TCP
-/

def replyBufSize : UInt32 := 1024

/-- The echo reply to the request at `data`, in `reply_buf`. -/
def echoReply (buf : Static) (f : Frame) (data : Nat) (len : UInt32) :
    Static :=
  let reply := buf.write 0 [icmpEchoReply]
  let reply := reply.write 1 [0]
  let reply := reply.write 2 (bytes16 0)
  let reply := reply.write 4 (bytes16 (f.u16 (data + 4)))
  let reply := reply.write 6 (bytes16 (f.u16 (data + 6)))
  let reply :=
    if icmpHeaderSize < len then
      reply.write 8 (f.bytes (data + 8) (len - icmpHeaderSize).toNat)
    else reply
  reply.write 2 (bytes16 (icmpChecksum reply.byte len.toNat))

def icmpRecv (s : Stack) (f : Frame) (src : UInt32) (data : Nat)
    (len : UInt32) : Stack :=
  if len < icmpHeaderSize then s
  else
    let s := s.touch data 1
    if f.byte data = icmpEchoRequest then
      let len := if replyBufSize < len then replyBufSize else len
      let s := s.touch (data + 4) 2
      let s := s.touch (data + 6) 2
      let s :=
        if icmpHeaderSize < len then
          s.touch (data + 8) (len - icmpHeaderSize).toNat
        else s
      let reply := echoReply s.replyBuf f data len
      (ip4Send { s with replyBuf := reply } src ipProtoIcmp reply.byte
        len.toUInt16).1
    else s

def udpRecv (s : Stack) (_ : Frame) (_ : UInt32) (_ : Nat) (_ : UInt32) :
    Stack := s

def tcpRecvPacket (s : Stack) (_ : Frame) (_ : UInt32) (_ : Nat)
    (_ : UInt32) : Stack := s

/-!
# IPv4
-/

def ip4Version (f : Frame) : UInt8 := (f.byte 14 >>> 4) &&& 0x0F

def ip4Ihl (f : Frame) : UInt8 := f.byte 14 &&& 0x0F

/-- `header_len` in `ip4_recv`. -/
def headerLen (f : Frame) : UInt32 := (ip4Ihl f).toUInt32 * 4

def totalLen (f : Frame) : UInt32 := (ntohs (f.u16 16)).toUInt32

/-- Whether `ip4_recv` takes the destination for its own. -/
def ip4ForUs (addr : UInt32) (f : Frame) : Prop :=
  f.u32 30 = addr ∨ f.u32 30 = ip4Broadcast

instance (addr : UInt32) (f : Frame) : Decidable (ip4ForUs addr f) :=
  inferInstanceAs (Decidable (_ ∨ _))

/-- The switch of `ip4_recv`. -/
def dispatch (s : Stack) (f : Frame) (payload : Nat) (payloadLen : UInt32) :
    Stack :=
  let src := f.u32 26
  if f.byte 23 = ipProtoIcmp then
    let s := (s.touch 26 4).noteCall ⟨.icmp, src, payload, payloadLen⟩
    icmpRecv s f src payload payloadLen
  else if f.byte 23 = ipProtoUdp then
    let s := (s.touch 26 4).noteCall ⟨.udp, src, payload, payloadLen⟩
    udpRecv s f src payload payloadLen
  else if f.byte 23 = ipProtoTcp then
    let s := (s.touch 26 4).noteCall ⟨.tcp, src, payload, payloadLen⟩
    tcpRecvPacket s f src payload payloadLen
  else s

def ip4Recv (s : Stack) (f : Frame) : Stack :=
  if f.len < ethHeaderSize + ip4HeaderSize then s
  else
    let s := s.touch 14 1
    if ip4Version f = 4 then
      match netifGetDefault s with
      | none => s
      | some i =>
          let s := s.touch 30 4
          if ip4ForUs (s.ifaces i).addr f then
            let payload := 14 + (headerLen f).toNat
            let s := s.touch 16 2
            let payloadLen := totalLen f - headerLen f
            let s := s.noteWrap (decide (totalLen f < headerLen f))
            let s := s.touch 23 1
            dispatch s f payload payloadLen
          else s
    else s

/-!
# Ethernet and the interface
-/

/-- Whether `eth_recv` takes the destination for its own. -/
def ethForUs (mac : Mac) (f : Frame) : Prop :=
  f.bytes 0 ethAlen = mac.bytes ∨ f.bytes 0 ethAlen = ethBroadcast.bytes

instance (mac : Mac) (f : Frame) : Decidable (ethForUs mac f) :=
  inferInstanceAs (Decidable (_ ∨ _))

def ethRecv (s : Stack) (iface : Nat) (f : Frame) : Stack :=
  if f.len < ethHeaderSize then s
  else
    let s := s.touch 12 2
    let type := ntohs (f.u16 12)
    let s := s.touch 0 ethAlen
    if ethForUs (s.ifaces iface).mac f then
      if type = ethTypeArp then arpRecv s f
      else if type = ethTypeIp then ip4Recv s f
      else s
    else s

def Netif.received (n : Netif) (len : UInt32) : Netif :=
  { n with
    rxPackets := n.rxPackets + 1
    rxBytes := n.rxBytes + len.toUInt64 }

def netifRecv (s : Stack) (iface : Option Nat) (frame : Option Frame) :
    Stack :=
  match iface, frame with
  | some i, some f =>
      ethRecv (s.setIface i ((s.ifaces i).received f.len)) i f
  | _, _ => s

end Net
end EarlnuxOS
