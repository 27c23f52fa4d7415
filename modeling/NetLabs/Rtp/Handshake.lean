import NetLabs.Rtp.Lifecycle

/-!
# The end of the handshake

The sender leaves `establish_connection` after one receive, whatever that
receive brought, and ignores every SYN|ACK from then on.  The receiver leaves
it with the third handshake only.  So the connection can be completed exactly
as long as a third handshake is still in flight: once all of them are lost the
receiver waits for a packet that is never sent again (`Stranded`).
-/

namespace NetLabs.Rtp

open NetLabs.Lib

/-- `establish_connection` of the sender has returned. -/
def SenderPc.pastEstablish : SenderPc → Prop
  | .synSent | .ackSent => False
  | _ => True

/-- No third handshake is in flight and none will be sent. -/
structure Stranded (s : State) : Prop where
  sender : s.sender.pc.pastEstablish
  receiver : s.receiver.pc = .synReceived
  noAck : InFlight s.toReceiver fun p => p.flags ≠ rtpAck

/-- Once the sender is past `establish_connection` it sends no ACK. -/
theorem Sender.step_pastEstablish {cfg : SenderConfig} {x x' : Sender} {input : Input}
    {sent : List Packet} (h : Sender.step cfg x input = some (x', sent))
    (hpast : x.pc.pastEstablish) :
    x'.pc.pastEstablish ∧ ∀ p ∈ sent, p.flags ≠ rtpAck := by
  have hdata : ∀ p : Packet, p.flags = 0 → p.flags ≠ rtpAck := by
    intro p hp
    rw [hp]
    decide
  have hfin : ∀ sqn, ∀ p ∈ [controlPacket sqn rtpFin], p.flags ≠ rtpAck := by
    simp only [List.mem_singleton, forall_eq]
    exact fun _ => show rtpFin ≠ rtpAck by decide
  obtain ⟨_, hmove⟩ := Sender.move_of_step cfg h
  cases hmove with
  | exit => exact ⟨hpast, nofun⟩
  | synRetry hpc => simp [hpc, SenderPc.pastEstablish] at hpast
  | synAccept hpc => simp [hpc, SenderPc.pastEstablish] at hpast
  | confirm hpc => simp [hpc, SenderPc.pastEstablish] at hpast
  | enter hpc =>
    obtain ⟨hphase, hflags⟩ := Sender.transferLoop_phase cfg
      { x with wbase := x.sqn, shift := 0, window := List.replicate cfg.wsize false }
    refine ⟨?_, fun p hp => hdata p (hflags p hp)⟩
    rcases hphase with hpc' | hpc' <;> simp [Sender.transferStart, hpc', SenderPc.pastEstablish]
  | @transfer r hpc =>
    obtain ⟨hphase, hflags⟩ := Sender.transferRecv_phase cfg x r
    refine ⟨?_, fun p hp => hdata p (hflags p hp)⟩
    rcases hphase with hpc' | hpc' <;> simp [hpc', SenderPc.pastEstablish]
  | fin => exact ⟨trivial, hfin _⟩
  | finRetry hpc => exact ⟨hpast, hfin _⟩
  | finAccept => exact ⟨trivial, nofun⟩

/-- Without an ACK to receive, the receiver stays in its loop. -/
theorem Receiver.step_synReceived {cfg : ReceiverConfig} {x x' : Receiver} {input : Input}
    {sent : List Packet} (h : Receiver.step cfg x input = some (x', sent))
    (hpc : x.pc = .synReceived) (hack : ∀ p, input = .recv (.ok p) → p.flags ≠ rtpAck) :
    x'.pc = .synReceived := by
  obtain ⟨_, hmove⟩ := Receiver.move_of_step cfg h
  cases hmove with
  | exit => exact hpc
  | synRetry => exact hpc
  | synAccept _ _ hflags => exact absurd hflags (hack _ rfl)
  | listenTimeout hpc' | listenSkip hpc' | syn hpc' | enter hpc' | leave hpc' | skip hpc'
  | data hpc' | finSkip hpc' | fin hpc' | close hpc' =>
    simp [hpc] at hpc'

theorem Stranded.step {cfg : Config} {s t : State} {e : Event} (h : Stranded s)
    (hstep : Step cfg s e t) : Stranded t := by
  cases hstep with
  | sender hreceives hstep =>
    obtain ⟨hpast, hsent⟩ := Sender.step_pastEstablish hstep h.sender
    exact ⟨hpast, h.receiver, h.noAck.send hsent⟩
  | receiver hreceives hstep =>
    refine ⟨h.sender, Receiver.step_synReceived hstep h.receiver ?_, h.noAck.receives hreceives⟩
    rintro p rfl
    exact h.noAck.received hreceives
  | toReceiver hchannel => exact { h with noAck := h.noAck.channel hchannel }
  | toSender hchannel => exact { h with }

/-- No continuation of a stranded state brings the receiver into
`transfer_data`. -/
theorem Stranded.dead_end {cfg : Config} {s t : State} (h : Stranded s)
    (hpath : (network cfg).Path (fun _ => True) s t) : t.receiver.pc ≠ .transfer := by
  have ht : Stranded t :=
    hpath.invariant (P := Stranded) (fun _ _ _ hs _ hstep => hs.step hstep) h
  rw [ht.receiver]
  nofun

/-- An ACK in flight to the receiver is the third handshake. -/
theorem FromSender.eq_ack {cfg : SenderConfig} {x : Sender} {p : Packet}
    (h : FromSender cfg x p) (hflags : p.flags = rtpAck) :
    p = controlPacket cfg.start rtpAck := by
  cases h with
  | syn => exact absurd hflags (show rtpSyn ≠ rtpAck by decide)
  | ack => rfl
  | data h => exact absurd (h.symm.trans hflags) (by decide)
  | fin => exact absurd hflags (show rtpFin ≠ rtpAck by decide)

/-- The third handshake in flight brings the receiver into `transfer_data`. -/
theorem path_to_transfer {cfg : Config} {s : State} (hpc : s.receiver.pc = .synReceived)
    (hfatal : s.receiver.fatal = false)
    (hmem : .intact (controlPacket s.receiver.sqn rtpAck) ∈ s.toReceiver) :
    ∃ t, (network cfg).Path (fun _ => True) s t ∧ t.receiver.pc = .transfer := by
  have hstart : (network cfg).Path (fun _ => True) s s := .refl s
  have haccept := path_receiver hstart trivial (.frame hmem)
    (Receiver.step_ack cfg.receiver hpc hfatal)
  exact ⟨_, path_receiver haccept trivial .run (Receiver.step_enter cfg.receiver rfl hfatal), rfl⟩

/-- Once the sender has returned from `establish_connection`, a receiver that
waits for the third handshake can still get into `transfer_data` if and only if
a third handshake is in flight. -/
theorem handshake_completes_iff (cfg : Config) {s : State} (hs : (network cfg).Reachable s)
    (hsender : s.sender.pc.pastEstablish) (hreceiver : s.receiver.pc = .synReceived)
    (hrunning : s.sender.fatal = false ∧ s.receiver.fatal = false) :
    (∃ t, (network cfg).Path (fun _ => True) s t ∧ t.receiver.pc = .transfer) ↔
      .intact (controlPacket cfg.sender.start rtpAck) ∈ s.toReceiver := by
  have hlifecycle := lifecycle_reachable hs
  constructor
  · rintro ⟨t, hpath, ht⟩
    by_contra hmem
    refine Stranded.dead_end ⟨hsender, hreceiver, ?_⟩ hpath ht
    intro f hf
    cases f with
    | corrupted p => trivial
    | intact p =>
      intro hflags
      exact hmem ((hlifecycle.toReceiver _ hf).eq_ack hflags ▸ hf)
  · intro hmem
    rw [← hlifecycle.receiverSqn (Or.inl hreceiver)] at hmem
    exact path_to_transfer hreceiver hrunning.2 hmem

/-- The state after a handshake without losses meets the condition. -/
theorem handshake_completes_oneByte :
    ∃ s, (network (oneByte .sr)).Reachable s ∧ s.sender.pc = .established ∧
      s.receiver.pc = .synReceived ∧
      ∃ t, (network (oneByte .sr)).Path (fun _ => True) s t ∧ t.receiver.pc = .transfer := by
  have h := reachable_sender (handshake_reachable (oneByte .sr)) .timeout
    (Sender.step_confirm_timeout _ rfl rfl)
  exact ⟨_, h, rfl, rfl,
    (handshake_completes_iff _ h trivial rfl ⟨rfl, rfl⟩).mpr List.mem_cons_self⟩

/-- The channel has lost the third handshake, and the single extra receive of
the sender has timed out. -/
def lostAck : State where
  sender := { pc := .established, fatal := false, tries := 0, sqn := 0, wbase := getRandomSeqnum,
              shift := 0, window := [] }
  receiver := { Receiver.start with pc := .synReceived, tries := 0, sqn := 0 }
  toReceiver := []
  toSender := []

/-- One lost ACK is enough to strand the connection. -/
theorem lost_ack_strands :
    (network (oneByte .sr)).Reachable lostAck ∧ lostAck.sender.pc.pastEstablish ∧
      lostAck.receiver.pc = .synReceived ∧ lostAck.sender.fatal = false ∧
      lostAck.receiver.fatal = false ∧
      ¬ ∃ t, (network (oneByte .sr)).Path (fun _ => True) lostAck t ∧
        t.receiver.pc = .transfer := by
  have h := handshake_reachable (oneByte .sr)
  replace h := System.Reachable.step h (Step.toReceiver (.lose List.mem_cons_self))
  rw [List.erase_cons_head] at h
  replace h := reachable_sender h .timeout (Sender.step_confirm_timeout _ rfl rfl)
  have hstranded : Stranded lostAck := ⟨trivial, rfl, .nil⟩
  exact ⟨h, trivial, rfl, rfl, rfl, fun ⟨_, hpath, ht⟩ => hstranded.dead_end hpath ht⟩

end NetLabs.Rtp
