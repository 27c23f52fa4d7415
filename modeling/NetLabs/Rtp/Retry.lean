import NetLabs.Rtp.Packet

/-!
# The retry loops of the handshakes

Three loops repeat a handshake packet until an acceptable reply arrives: the
first handshake of the sender, its last one, and the second handshake of the
receiver.  They differ in the packet they repeat and in the reply they accept,
so a `RetryLoop` holds these two, and one step function is the body of all
three.

The counter is bumped inside the arguments of `LOG_DEBUG`, a macro that expands
to nothing unless `LDEBUG` is defined.
-/

namespace NetLabs.Rtp

/-- `LOG_DEBUG("... (times: %d)\n", ++tries)`: the increment exists only in a
build with `LDEBUG`. -/
def logDebugTries (ldebug : Bool) (tries : Nat) : Nat :=
  if ldebug then tries + 1 else tries

/-- The packet that a loop repeats and the reply that ends it. -/
structure RetryLoop where
  packet : Packet
  accepts : Packet → Bool

/-- Where a retry loop stands when it is about to receive, or how it ended. -/
inductive Retry where
  | waiting (tries : Nat)
  | accepted
  | usedUp
  deriving DecidableEq, Repr

namespace RetryLoop

/-- The head of the loop: give up once `tries > SEND_TR`. -/
def head (tries : Nat) : Retry :=
  if tries > sendTr then .usedUp else .waiting tries

/-- Log, send the packet (again), and go to the head of the loop. -/
def send (loop : RetryLoop) (ldebug : Bool) (tries : Nat) : Retry × List Packet :=
  (head (logDebugTries ldebug tries), [loop.packet])

/-- Entry of the loop: `tries` is 0 and the packet is sent a first time. -/
def start (loop : RetryLoop) (ldebug : Bool) : Retry × List Packet :=
  loop.send ldebug 0

/-- One receive of the loop. -/
def recv (loop : RetryLoop) (ldebug : Bool) (tries : Nat) : Recv → Retry × List Packet
  | .ok packet =>
    if loop.accepts packet then (.accepted, []) else loop.send ldebug tries
  | _ => loop.send ldebug tries

/-- The two ways one receive can go. -/
theorem recv_cases (loop : RetryLoop) (ldebug : Bool) (tries : Nat) (r : Recv) :
    (∃ p, r = .ok p ∧ loop.accepts p = true ∧
      loop.recv ldebug tries r = (.accepted, [])) ∨
    ((∀ p, r = .ok p → loop.accepts p = false) ∧
      loop.recv ldebug tries r = (head (logDebugTries ldebug tries), [loop.packet])) := by
  cases r with
  | ok p =>
    cases hacc : loop.accepts p with
    | true => exact .inl ⟨p, rfl, hacc, by simp [recv, hacc]⟩
    | false => exact .inr ⟨by simp [hacc], by simp [recv, hacc, send]⟩
  | timeout => exact .inr ⟨nofun, rfl⟩
  | rejected p => exact .inr ⟨nofun, rfl⟩

end RetryLoop

/-- The loop of the sender's `establish_connection`: repeat the SYN until a
SYN|ACK with the next number arrives. -/
def senderEstablishLoop (sqn : UInt32) : RetryLoop where
  packet := controlPacket sqn rtpSyn
  accepts p := p.seqNum == seqnumAdd sqn 1 && p.flags == rtpAck ||| rtpSyn

/-- The loop of the sender's `break_connection`: repeat the FIN until a FIN|ACK
with the same number arrives. -/
def senderBreakLoop (sqn : UInt32) : RetryLoop where
  packet := controlPacket sqn rtpFin
  accepts p := p.seqNum == sqn && p.flags == rtpAck ||| rtpFin

/-- The second loop of the receiver's `establish_connection`: repeat the
SYN|ACK until an ACK with the same number arrives. -/
def receiverEstablishLoop (sqn : UInt32) : RetryLoop where
  packet := controlPacket sqn (rtpAck ||| rtpSyn)
  accepts p := p.seqNum == sqn && p.flags == rtpAck

end NetLabs.Rtp
