import NetLabs.Rtp.Network

/-!
# The order of the connection phases

Which phase one side is in bounds the phase of the other side, in every
reachable state and for every pair of command lines.  The invariant is
`Lifecycle`.  It says what either side can have put in flight so far
(`FromSender`, `FromReceiver`) and reads the order of the phases off the flags
of these packets: an ACK in flight means that the sender has accepted a
SYN|ACK, a FIN that it has left `transfer_data`, and a FIN|ACK that the
receiver has left its FIN loop.

Nothing here depends on the data packets, so the windows, the modes and the
file are arbitrary.
-/

namespace NetLabs.Rtp

open NetLabs.Lib

/-- The number of the first data packet: one more than the number of the SYN. -/
def SenderConfig.start (cfg : SenderConfig) : UInt32 := seqnumAdd cfg.isn 1

/-- `transfer_data` of the sender has returned. -/
def SenderPc.leftTransfer : SenderPc → Prop
  | .transferred | .finSent | .closed => True
  | _ => False

/-- `establish_connection` of the receiver has returned. -/
def ReceiverPc.pastEstablish : ReceiverPc → Prop
  | .listen | .synReceived => False
  | _ => True

/-- `transfer_data` of the receiver has returned. -/
def ReceiverPc.leftTransfer : ReceiverPc → Prop
  | .finWait | .finReplied | .closed => True
  | _ => False

/-- The first loop of the receiver's `break_connection` has been left. -/
def ReceiverPc.pastFinWait : ReceiverPc → Prop
  | .finReplied | .closed => True
  | _ => False

/-! ## What `transfer_data` does to the program counter -/

namespace Sender

variable (cfg : SenderConfig)

theorem flags_of_mem_sendBatch {shift fuel i : Nat} {sqn : UInt32} {p : Packet}
    (hp : p ∈ (sendBatch cfg shift fuel i sqn).2) : p.flags = 0 := by
  induction fuel generalizing i sqn with
  | zero => simp [sendBatch] at hp
  | succ fuel ih =>
    rw [sendBatch] at hp
    split at hp
    · rcases List.mem_cons.mp hp with rfl | hp
      · rfl
      · exact ih hp
    · simp at hp

theorem flags_of_mem_resend {x : Sender} {fuel i : Nat} {p : Packet}
    (hp : p ∈ resend cfg x fuel i) : p.flags = 0 := by
  induction fuel generalizing i with
  | zero => simp [resend] at hp
  | succ fuel ih =>
    rw [resend] at hp
    split at hp
    · split at hp
      · exact ih hp
      · rcases List.mem_cons.mp hp with rfl | hp
        · rfl
        · exact ih hp
    · simp at hp

/-- The head of the loop stays in the loop or leaves it, and sends data only. -/
theorem transferLoop_phase (x : Sender) :
    ((transferLoop cfg x).1.pc = .transfer ∨ (transferLoop cfg x).1.pc = .transferred) ∧
      ∀ p ∈ (transferLoop cfg x).2, p.flags = 0 := by
  unfold transferLoop
  split
  · split
    · exact ⟨Or.inl rfl, fun p hp => flags_of_mem_sendBatch cfg hp⟩
    · exact ⟨Or.inl rfl, nofun⟩
  · exact ⟨Or.inr rfl, nofun⟩

theorem transferRecv_phase (x : Sender) (r : Recv) :
    ((transferRecv cfg x r).1.pc = .transfer ∨ (transferRecv cfg x r).1.pc = .transferred) ∧
      ∀ p ∈ (transferRecv cfg x r).2, p.flags = 0 := by
  cases r with
  | timeout =>
    refine ⟨(transferLoop_phase cfg x).1, fun p hp => ?_⟩
    rcases List.mem_append.mp hp with hp | hp
    · exact flags_of_mem_resend cfg hp
    · exact (transferLoop_phase cfg x).2 p hp
  | rejected q => exact transferLoop_phase cfg x
  | ok q =>
    simp only [transferRecv]
    split
    · exact transferLoop_phase cfg x
    · split <;> exact transferLoop_phase cfg _

end Sender

namespace Receiver

variable (cfg : ReceiverConfig)

/-- A data packet does not move the receiver out of its loop, and is answered
by an ACK or not at all. -/
theorem recvData_phase (x : Receiver) (p : Packet) :
    (recvData cfg x p).1.pc = x.pc ∧ (recvData cfg x p).1.file = x.file ∧
      ∀ q ∈ (recvData cfg x p).2, q.flags = rtpAck := by
  unfold recvData
  split
  · unfold recvSr
    split
    · simp
    · split
      · exact ⟨rfl, rfl, by simp⟩
      · exact ⟨rfl, rfl, nofun⟩
  · unfold recvGbn
    split
    · exact ⟨rfl, rfl, by simp⟩
    · exact ⟨rfl, rfl, by simp⟩

end Receiver

/-! ## Packets in flight -/

/-- The packets that the sender can have sent by the time it is in state `x`. -/
inductive FromSender (cfg : SenderConfig) (x : Sender) : Packet → Prop
  | syn : FromSender cfg x (controlPacket cfg.isn rtpSyn)
  | ack (haccepted : x.pc ≠ .synSent) : FromSender cfg x (controlPacket cfg.start rtpAck)
  | data {p : Packet} (hflags : p.flags = 0) : FromSender cfg x p
  | fin (hleft : x.pc.leftTransfer) (sqn : UInt32) : FromSender cfg x (controlPacket sqn rtpFin)

/-- The packets that the receiver can have sent by the time it is in state
`x`. -/
inductive FromReceiver (cfg : SenderConfig) (x : Receiver) : Packet → Prop
  | synAck : FromReceiver cfg x (controlPacket cfg.start (rtpAck ||| rtpSyn))
  | ack {p : Packet} (hflags : p.flags = rtpAck) : FromReceiver cfg x p
  | finAck (hpast : x.pc.pastFinWait) (sqn : UInt32) :
      FromReceiver cfg x (controlPacket sqn (rtpAck ||| rtpFin))

theorem FromSender.mono {cfg : SenderConfig} {x x' : Sender} {p : Packet}
    (h : FromSender cfg x p) (haccepted : x.pc ≠ .synSent → x'.pc ≠ .synSent)
    (hleft : x.pc.leftTransfer → x'.pc.leftTransfer) : FromSender cfg x' p := by
  cases h with
  | syn => exact .syn
  | ack h => exact .ack (haccepted h)
  | data h => exact .data h
  | fin h sqn => exact .fin (hleft h) sqn

theorem FromReceiver.mono {cfg : SenderConfig} {x x' : Receiver} {p : Packet}
    (h : FromReceiver cfg x p) (hpast : x.pc.pastFinWait → x'.pc.pastFinWait) :
    FromReceiver cfg x' p := by
  cases h with
  | synAck => exact .synAck
  | ack h => exact .ack h
  | finAck h sqn => exact .finAck (hpast h) sqn

/-- An ACK from the sender is the third handshake. -/
theorem FromSender.of_ack {cfg : SenderConfig} {x : Sender} {p : Packet}
    (h : FromSender cfg x p) (hflags : p.flags = rtpAck) :
    x.pc ≠ .synSent ∧ p.seqNum = cfg.start := by
  cases h with
  | syn => exact absurd hflags (show rtpSyn ≠ rtpAck by decide)
  | ack h => exact ⟨h, rfl⟩
  | data h => exact absurd (h.symm.trans hflags) (by decide)
  | fin => exact absurd hflags (show rtpFin ≠ rtpAck by decide)

theorem FromSender.of_syn {cfg : SenderConfig} {x : Sender} {p : Packet}
    (h : FromSender cfg x p) (hflags : p.flags = rtpSyn) : p.seqNum = cfg.isn := by
  cases h with
  | syn => rfl
  | ack => exact absurd hflags (show rtpAck ≠ rtpSyn by decide)
  | data h => exact absurd (h.symm.trans hflags) (by decide)
  | fin => exact absurd hflags (show rtpFin ≠ rtpSyn by decide)

theorem FromSender.of_fin {cfg : SenderConfig} {x : Sender} {p : Packet}
    (h : FromSender cfg x p) (hflags : p.flags = rtpFin) : x.pc.leftTransfer := by
  cases h with
  | syn => exact absurd hflags (show rtpSyn ≠ rtpFin by decide)
  | ack => exact absurd hflags (show rtpAck ≠ rtpFin by decide)
  | data h => exact absurd (h.symm.trans hflags) (by decide)
  | fin h => exact h

theorem FromReceiver.of_finAck {cfg : SenderConfig} {x : Receiver} {p : Packet}
    (h : FromReceiver cfg x p) (hflags : p.flags = rtpAck ||| rtpFin) : x.pc.pastFinWait := by
  cases h with
  | synAck => exact absurd hflags (show rtpAck ||| rtpSyn ≠ rtpAck ||| rtpFin by decide)
  | ack h => exact absurd (h.symm.trans hflags) (by decide)
  | finAck h => exact h

/-! ## The invariant -/

/-- The order of the phases, together with what is in flight and the numbers
of the handshake. -/
structure Lifecycle (cfg : Config) (s : State) : Prop where
  /-- Until a SYN|ACK is accepted the sender's number is the initial one. -/
  isn : s.sender.pc = .synSent → s.sender.sqn = cfg.sender.isn
  senderSqn : s.sender.pc = .ackSent ∨ s.sender.pc = .established →
    s.sender.sqn = cfg.sender.start
  receiverSqn : s.receiver.pc = .synReceived ∨ s.receiver.pc = .established →
    s.receiver.sqn = cfg.sender.start
  accepted : s.receiver.pc.pastEstablish → s.sender.pc ≠ .synSent
  senderLeft : s.receiver.pc.pastFinWait → s.sender.pc.leftTransfer
  receiverLeft : s.sender.pc = .closed → s.receiver.pc.leftTransfer
  written : s.receiver.pc.leftTransfer → s.receiver.file.isSome
  toReceiver : InFlight s.toReceiver (FromSender cfg.sender s.sender)
  toSender : InFlight s.toSender (FromReceiver cfg.sender s.receiver)

/-- What one step of the sender does to its phase.  The packet that a phase
change needs is named, because the other side must have sent it. -/
theorem Sender.step_phase {cfg : SenderConfig} {x x' : Sender} {input : Input}
    {sent : List Packet} (h : Sender.step cfg x input = some (x', sent))
    (hisn : x.pc = .synSent → x.sqn = cfg.isn)
    (hsqn : x.pc = .ackSent ∨ x.pc = .established → x.sqn = cfg.start) :
    (x.pc ≠ .synSent → x'.pc ≠ .synSent) ∧
    (x.pc.leftTransfer → x'.pc.leftTransfer) ∧
    (x'.pc = .synSent → x'.sqn = cfg.isn) ∧
    (x'.pc = .ackSent ∨ x'.pc = .established → x'.sqn = cfg.start) ∧
    (x'.pc = .closed → x.pc = .closed ∨
      ∃ p, input = .recv (.ok p) ∧ p.flags = rtpAck ||| rtpFin) ∧
    ∀ p ∈ sent, FromSender cfg x' p := by
  obtain ⟨_, hmove⟩ := Sender.move_of_step cfg h
  cases hmove with
  | exit => exact ⟨id, id, hisn, hsqn, Or.inl, nofun⟩
  | synRetry hpc =>
    refine ⟨id, id, hisn, hsqn, Or.inl, ?_⟩
    simp only [List.mem_singleton, forall_eq, hisn hpc]
    exact .syn
  | synAccept hpc =>
    have hstart : seqnumAdd x.sqn 1 = cfg.start := by rw [hisn hpc]; rfl
    refine ⟨nofun, by simp [hpc, SenderPc.leftTransfer], nofun, fun _ => hstart, nofun, ?_⟩
    simp only [List.mem_singleton, forall_eq, hstart]
    exact .ack nofun
  | confirm hpc hsent =>
    refine ⟨nofun, by simp [hpc, SenderPc.leftTransfer], nofun, fun _ => hsqn (Or.inl hpc),
      nofun, ?_⟩
    intro p hp
    rw [hsent p hp, hsqn (Or.inl hpc)]
    exact .ack nofun
  | enter hpc =>
    obtain ⟨hphase, hdata⟩ := Sender.transferLoop_phase cfg
      { x with wbase := x.sqn, shift := 0, window := List.replicate cfg.wsize false }
    refine ⟨fun _ => ?_, by simp [hpc, SenderPc.leftTransfer], ?_, ?_, ?_,
      fun p hp => .data (hdata p hp)⟩ <;>
      rcases hphase with hphase | hphase <;> simp [Sender.transferStart, hphase]
  | @transfer r hpc =>
    obtain ⟨hphase, hdata⟩ := Sender.transferRecv_phase cfg x r
    refine ⟨fun _ => ?_, by simp [hpc, SenderPc.leftTransfer], ?_, ?_, ?_,
      fun p hp => .data (hdata p hp)⟩ <;>
      rcases hphase with hphase | hphase <;> simp [hphase]
  | fin hpc =>
    refine ⟨nofun, fun _ => trivial, nofun, by simp, nofun, ?_⟩
    simp only [List.mem_singleton, forall_eq]
    exact .fin (by trivial) _
  | finRetry hpc =>
    refine ⟨id, id, hisn, hsqn, Or.inl, ?_⟩
    simp only [List.mem_singleton, forall_eq]
    exact .fin (by simp [hpc, SenderPc.leftTransfer]) _
  | finAccept hpc _ hflags =>
    exact ⟨nofun, fun _ => trivial, nofun, by simp, fun _ => Or.inr ⟨_, rfl, hflags⟩, nofun⟩

/-- What one step of the receiver does to its phase. -/
theorem Receiver.step_phase {cfg : SenderConfig} {rcfg : ReceiverConfig} {x x' : Receiver}
    {input : Input} {sent : List Packet} (h : Receiver.step rcfg x input = some (x', sent))
    (hsqn : x.pc = .synReceived ∨ x.pc = .established → x.sqn = cfg.start)
    (hsyn : ∀ p, input = .recv (.ok p) → p.flags = rtpSyn → p.seqNum = cfg.isn) :
    (x.pc.leftTransfer → x'.pc.leftTransfer ∧ x'.file = x.file) ∧
    (x.pc.pastFinWait → x'.pc.pastFinWait) ∧
    (x'.pc = .synReceived ∨ x'.pc = .established → x'.sqn = cfg.start) ∧
    (x'.pc.pastEstablish → x.pc.pastEstablish ∨
      ∃ p, input = .recv (.ok p) ∧ p.flags = rtpAck) ∧
    (x'.pc.pastFinWait → x.pc.pastFinWait ∨
      ∃ p, input = .recv (.ok p) ∧ p.flags = rtpFin) ∧
    (x'.pc.leftTransfer → x.pc.leftTransfer ∨ x'.file.isSome) ∧
    ∀ p ∈ sent, FromReceiver cfg x' p := by
  obtain ⟨_, hmove⟩ := Receiver.move_of_step rcfg h
  cases hmove with
  | exit => exact ⟨fun h => ⟨h, rfl⟩, id, hsqn, Or.inl, Or.inl, Or.inl, nofun⟩
  | listenTimeout => exact ⟨fun h => ⟨h, rfl⟩, id, hsqn, Or.inl, Or.inl, Or.inl, nofun⟩
  | listenSkip => exact ⟨fun h => ⟨h, rfl⟩, id, hsqn, Or.inl, Or.inl, Or.inl, nofun⟩
  | syn hpc hflags =>
    have hstart := hsyn _ rfl hflags
    refine ⟨by simp [hpc, ReceiverPc.leftTransfer], by simp [hpc, ReceiverPc.pastFinWait],
      fun _ => by rw [hstart]; rfl, False.elim, False.elim, False.elim, ?_⟩
    simp only [List.mem_singleton, forall_eq, hstart]
    exact .synAck
  | synRetry hpc =>
    refine ⟨fun h => ⟨h, rfl⟩, id, hsqn, Or.inl, Or.inl, Or.inl, ?_⟩
    simp only [List.mem_singleton, forall_eq, hsqn (Or.inl hpc)]
    exact .synAck
  | synAccept hpc _ hflags =>
    exact ⟨by simp [hpc, ReceiverPc.leftTransfer], by simp [hpc, ReceiverPc.pastFinWait],
      fun _ => hsqn (Or.inl hpc), fun _ => Or.inr ⟨_, rfl, hflags⟩, False.elim, False.elim, nofun⟩
  | enter hpc =>
    exact ⟨by simp [hpc, ReceiverPc.leftTransfer], by simp [hpc, ReceiverPc.pastFinWait],
      by simp [Receiver.transferStart], fun _ => Or.inl (by simp [hpc, ReceiverPc.pastEstablish]),
      False.elim, False.elim, nofun⟩
  | leave hpc =>
    exact ⟨by simp [hpc, ReceiverPc.leftTransfer], by simp [hpc, ReceiverPc.pastFinWait],
      by simp [Receiver.transferEnd], fun _ => Or.inl (by simp [hpc, ReceiverPc.pastEstablish]),
      False.elim, fun _ => Or.inr rfl, nofun⟩
  | skip => exact ⟨fun h => ⟨h, rfl⟩, id, hsqn, Or.inl, Or.inl, Or.inl, nofun⟩
  | @data p hpc =>
    obtain ⟨hpc', hfile, hack⟩ := Receiver.recvData_phase rcfg x p
    rw [hpc'] at *
    exact ⟨fun h => ⟨h, hfile⟩, id, by simp [hpc], Or.inl, Or.inl, Or.inl,
      fun q hq => .ack (hack q hq)⟩
  | finSkip => exact ⟨fun h => ⟨h, rfl⟩, id, hsqn, Or.inl, Or.inl, Or.inl, nofun⟩
  | fin hpc hflags =>
    refine ⟨fun _ => ⟨trivial, rfl⟩, fun _ => trivial, by simp,
      fun _ => Or.inl (by simp [hpc, ReceiverPc.pastEstablish]),
      fun _ => Or.inr ⟨_, rfl, hflags⟩, fun _ => Or.inl (by simp [hpc, ReceiverPc.leftTransfer]), ?_⟩
    simp only [List.mem_singleton, forall_eq]
    exact .finAck (by trivial) _
  | close hpc sqn hsent =>
    refine ⟨fun _ => ⟨trivial, rfl⟩, fun _ => trivial, by simp,
      fun _ => Or.inl (by simp [hpc, ReceiverPc.pastEstablish]),
      fun _ => Or.inl (by simp [hpc, ReceiverPc.pastFinWait]),
      fun _ => Or.inl (by simp [hpc, ReceiverPc.leftTransfer]), ?_⟩
    intro q hq
    rw [hsent q hq]
    exact .finAck (by trivial) _

/-! ## The invariant holds in every run -/

theorem lifecycle_start (cfg : Config) : Lifecycle cfg (State.start cfg) where
  isn _ := by simp [State.start, Sender.start_eq]
  senderSqn := by simp [State.start, Sender.start_eq]
  receiverSqn := by simp [State.start, Receiver.start]
  accepted := by simp [State.start, Receiver.start, ReceiverPc.pastEstablish]
  senderLeft := by simp [State.start, Receiver.start, ReceiverPc.pastFinWait]
  receiverLeft := by simp [State.start, Sender.start_eq]
  written := by simp [State.start, Receiver.start, ReceiverPc.leftTransfer]
  toReceiver := by
    have hsent : ∀ p ∈ (Sender.start cfg.sender).2,
        FromSender cfg.sender (Sender.start cfg.sender).1 p := by
      rw [Sender.start_eq]
      simp only [List.mem_singleton, forall_eq]
      exact .syn
    exact InFlight.nil.send hsent
  toSender := .nil

theorem ReceiverPc.leftTransfer_of_pastFinWait {pc : ReceiverPc} (h : pc.pastFinWait) :
    pc.leftTransfer := by
  cases pc <;> trivial

theorem lifecycle_step {cfg : Config} {s t : State} {e : Event} (h : Lifecycle cfg s)
    (hstep : Step cfg s e t) : Lifecycle cfg t := by
  cases hstep with
  | sender hreceives hstep =>
    obtain ⟨haccepted, hleft, hisn, hsqn, hclosed, hsent⟩ :=
      Sender.step_phase hstep h.isn h.senderSqn
    exact {
      isn := hisn
      senderSqn := hsqn
      receiverSqn := h.receiverSqn
      accepted := fun hr => haccepted (h.accepted hr)
      senderLeft := fun hr => hleft (h.senderLeft hr)
      receiverLeft := fun hc => by
        rcases hclosed hc with hc | ⟨p, rfl, hflags⟩
        · exact h.receiverLeft hc
        · have hfrom := h.toSender.received hreceives
          exact ReceiverPc.leftTransfer_of_pastFinWait (hfrom.of_finAck hflags)
      written := h.written
      toReceiver := (h.toReceiver.mono fun p hp => hp.mono haccepted hleft).send hsent
      toSender := h.toSender.receives hreceives }
  | receiver hreceives hstep =>
    obtain ⟨hleft, hpast, hsqn, hestablish, hfin, hwritten, hsent⟩ :=
      Receiver.step_phase hstep h.receiverSqn
        (fun p hp hflags => by subst hp; exact (h.toReceiver.received hreceives).of_syn hflags)
    exact {
      isn := h.isn
      senderSqn := h.senderSqn
      receiverSqn := hsqn
      accepted := fun hr => by
        rcases hestablish hr with hr | ⟨p, rfl, hflags⟩
        · exact h.accepted hr
        · exact ((h.toReceiver.received hreceives).of_ack hflags).1
      senderLeft := fun hr => by
        rcases hfin hr with hr | ⟨p, rfl, hflags⟩
        · exact h.senderLeft hr
        · exact (h.toReceiver.received hreceives).of_fin hflags
      receiverLeft := fun hc => (hleft (h.receiverLeft hc)).1
      written := fun hr => by
        rcases hwritten hr with hr | hfile
        · rw [(hleft hr).2]
          exact h.written hr
        · exact hfile
      toReceiver := h.toReceiver.receives hreceives
      toSender := (h.toSender.mono fun p hp => hp.mono hpast).send hsent }
  | toReceiver hchannel => exact { h with toReceiver := h.toReceiver.channel hchannel }
  | toSender hchannel => exact { h with toSender := h.toSender.channel hchannel }

/-- The phases are in order in every reachable state. -/
theorem lifecycle_reachable {cfg : Config} {s : State} (hs : (network cfg).Reachable s) :
    Lifecycle cfg s :=
  hs.invariant (P := Lifecycle cfg)
    (fun s hinit => by rw [show s = State.start cfg from hinit]; exact lifecycle_start cfg)
    (fun _ _ _ _ h hstep => lifecycle_step h hstep)

/-- The life cycle of a connection.  Once the receiver is past
`establish_connection` the sender has accepted a SYN|ACK, and both enter
`transfer_data` with the number `ISN + 1`.  Once the receiver is past its FIN
loop the sender has left `transfer_data`.  Once the sender is past
`break_connection` the receiver has left `transfer_data` and written its
file. -/
theorem phases_in_order (cfg : Config) {s : State} (hs : (network cfg).Reachable s) :
    (s.receiver.pc.pastEstablish → s.sender.pc ≠ .synSent) ∧
    (s.sender.pc = .established →
      s.sender.sqn.toNat = (cfg.sender.isn.toNat + 1) % 2 ^ 31) ∧
    (s.receiver.pc = .established →
      s.receiver.sqn.toNat = (cfg.sender.isn.toNat + 1) % 2 ^ 31) ∧
    (s.receiver.pc.pastFinWait → s.sender.pc.leftTransfer) ∧
    (s.sender.pc = .closed → s.receiver.pc.leftTransfer ∧ s.receiver.file.isSome) := by
  have h := lifecycle_reachable hs
  have hstart : cfg.sender.start.toNat = (cfg.sender.isn.toNat + 1) % 2 ^ 31 :=
    seqnumAdd_toNat _ 1
  refine ⟨h.accepted, fun hpc => ?_, fun hpc => ?_, h.senderLeft, fun hpc => ?_⟩
  · rw [h.senderSqn (Or.inr hpc), hstart]
  · rw [h.receiverSqn (Or.inr hpc), hstart]
  · exact ⟨h.receiverLeft hpc, h.written (h.receiverLeft hpc)⟩

/-- A complete run arrives at the last phase of both sides. -/
theorem phases_in_order_oneByte :
    ∃ s, (network (oneByte .sr)).Reachable s ∧ s.sender.pc = .closed ∧
      s.receiver.pc.leftTransfer ∧ s.receiver.file.isSome := by
  obtain ⟨s, hs, hpc, -⟩ := oneByte_closed .sr
  exact ⟨s, hs, hpc, (phases_in_order (oneByte .sr) hs).2.2.2.2 hpc⟩

end NetLabs.Rtp
