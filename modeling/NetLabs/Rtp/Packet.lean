import NetLabs.Rtp.Seqnum

/-!
# Packets and receive outcomes

The constants of `defs.h`, the flags of `rtp.h`, and packets as the two
programs see them.  A `Packet` is what the code reads out of `rtp_packet_t`
after a receive: the sequence number, the flags, and the `length` bytes of the
payload.  `NetLabs.Rtp.Wire` holds the bytes of a datagram and the checks of
`recv_packet`.
-/

namespace NetLabs.Rtp

/-- `MAXBUF`: the size of both file buffers. -/
def maxbuf : Nat := 2 ^ 21

/-- `PAYLOAD_MAX`: the most data bytes in one packet. -/
def payloadMax : Nat := 1461

/-- `SEND_TR`: how many times a handshake packet is repeated. -/
def sendTr : Nat := 50

/-- `RTP_SYN` -/
def rtpSyn : UInt8 := 0b0001

/-- `RTP_ACK` -/
def rtpAck : UInt8 := 0b0010

/-- `RTP_FIN` -/
def rtpFin : UInt8 := 0b0100

theorem synAck_ne_ack : rtpAck ||| rtpSyn ≠ rtpAck := by decide

theorem finAck_ne_ack : rtpAck ||| rtpFin ≠ rtpAck := by decide

/-- The fields of `rtp_packet_t` that the programs read. -/
structure Packet where
  seqNum : UInt32
  flags : UInt8
  payload : List UInt8
  deriving DecidableEq, Repr

/-- `packet.rtp.length` -/
def Packet.length (p : Packet) : Nat := p.payload.length

/-- A packet without data, as the handshakes and the acknowledgements use it. -/
def controlPacket (seqNum : UInt32) (flags : UInt8) : Packet :=
  { seqNum, flags, payload := [] }

@[simp] theorem controlPacket_seqNum (s : UInt32) (f : UInt8) :
    (controlPacket s f).seqNum = s := rfl

@[simp] theorem controlPacket_flags (s : UInt32) (f : UInt8) :
    (controlPacket s f).flags = f := rfl

/-- What one call of `recv_packet` reports.  A rejected datagram has already
overwritten the packet struct, so the code can still look at its fields. -/
inductive Recv where
  | timeout
  | rejected (packet : Packet)
  | ok (packet : Packet)
  deriving DecidableEq, Repr

/-- The return value of `recv_packet`. -/
def Recv.scode : Recv → Int
  | .timeout => -2
  | .rejected _ => -1
  | .ok _ => 0

/-- The two transfer modes of the command line. -/
inductive Mode where
  | gbn
  | sr
  deriving DecidableEq, Repr

/-- The `int` on the command line: 0 is go-back-N, 1 is selective repeat. -/
def Mode.toNat : Mode → Nat
  | .gbn => 0
  | .sr => 1

end NetLabs.Rtp
