import NetLabs.Rtp.Handshake

/-!
# The end of the connection

The sender repeats its FIN until a FIN|ACK arrives.  The receiver answers at
most two FINs and exits, so that nobody is left who answers a third one.

* `State.Answers`: the receiver can still get to a place where it answers a FIN.
* `Unanswered` is the invariant of the runs in which the sender never gets its
  FIN|ACK.
* `teardown_completes_iff`: from a state in which the sender waits for a
  FIN|ACK, the sender can still return normally exactly when one is in flight,
  or when the receiver answers and has a FIN to answer.
-/

namespace NetLabs.Rtp

open NetLabs.Lib

/-! ## The receiver is never left behind -/

/-- The receiver has left its first loop once a SYN|ACK is around. -/
structure Heard (s : State) : Prop where
  sender : s.sender.pc ≠ .synSent → s.receiver.pc ≠ .listen
  toSender : InFlight s.toSender fun p =>
    p.flags = rtpAck ||| rtpSyn → s.receiver.pc ≠ .listen

/-- The sender leaves its first loop with a SYN|ACK only. -/
theorem Sender.step_synSent {cfg : SenderConfig} {x x' : Sender} {input : Input}
    {sent : List Packet} (h : Sender.step cfg x input = some (x', sent))
    (hpc' : x'.pc ≠ .synSent) : x.pc ≠ .synSent ∨
      ∃ p, input = .recv (.ok p) ∧ p.flags = rtpAck ||| rtpSyn := by
  obtain ⟨_, hmove⟩ := Sender.move_of_step cfg h
  cases hmove with
  | exit => exact .inl hpc'
  | synRetry hpc => exact absurd hpc hpc'
  | synAccept hpc hseq hflags => exact .inr ⟨_, rfl, hflags⟩
  | confirm hpc | enter hpc | transfer hpc | fin hpc | finRetry hpc | finAccept hpc =>
    left
    rw [hpc]
    decide

/-- The receiver leaves its first loop for good, and sends nothing in it. -/
theorem Receiver.step_listen {cfg : ReceiverConfig} {x x' : Receiver} {input : Input}
    {sent : List Packet} (h : Receiver.step cfg x input = some (x', sent))
    (hpc' : x'.pc = .listen) : x.pc = .listen ∧ sent = [] := by
  obtain ⟨_, hmove⟩ := Receiver.move_of_step cfg h
  cases hmove with
  | exit => exact ⟨hpc', rfl⟩
  | listenTimeout hpc | listenSkip hpc => exact ⟨hpc, rfl⟩
  | synRetry hpc | skip hpc | finSkip hpc =>
    rw [hpc'] at hpc
    cases hpc
  | data hpc =>
    rw [(Receiver.recvData_phase _ _ _).1, hpc] at hpc'
    cases hpc'
  | syn | synAccept | enter | leave | fin | close => cases hpc'

theorem Heard.step {cfg : Config} {s t : State} {e : Event} (h : Heard s)
    (hstep : Step cfg s e t) : Heard t := by
  cases hstep with
  | @sender input c x sent hreceives hstep =>
    refine ⟨fun hpc' => ?_, h.toSender.receives hreceives⟩
    rcases Sender.step_synSent hstep hpc' with hpc | ⟨p, rfl, hflags⟩
    · exact h.sender hpc
    · exact h.toSender.received hreceives hflags
  | @receiver input c x sent hreceives hstep =>
    refine ⟨fun hpc hlisten => ?_, (h.toSender.mono ?_).send ?_⟩
    · exact h.sender hpc (Receiver.step_listen hstep hlisten).1
    · intro p hp hflags hlisten
      exact hp hflags (Receiver.step_listen hstep hlisten).1
    · intro p hp _ hlisten
      rw [(Receiver.step_listen hstep hlisten).2] at hp
      cases hp
  | toReceiver hchannel => exact { h with }
  | toSender hchannel => exact { h with toSender := h.toSender.channel hchannel }

theorem heard_of_reachable {cfg : Config} {s : State} (hs : (network cfg).Reachable s) :
    Heard s := by
  refine hs.invariant (P := Heard) ?_ fun _ _ _ _ h hstep => h.step hstep
  intro s hinit
  rw [show s = State.start cfg from hinit]
  refine ⟨fun hpc => absurd ?_ hpc, .nil⟩
  rw [State.start, Sender.start_eq]

/-! ## The FIN and its answer -/

/-- The receiver runs and will come to a place where it answers a FIN.  Before
the end of the handshake that takes the third packet of it. -/
def State.Answers (cfg : Config) (s : State) : Prop :=
  s.receiver.fatal = false ∧ s.receiver.pc ≠ .closed ∧
    (s.receiver.pc = .synReceived →
      .intact (controlPacket cfg.sender.start rtpAck) ∈ s.toReceiver)

/-- The sender survives sending its FIN once more. -/
def Sender.Resends (cfg : SenderConfig) (x : Sender) : Prop :=
  RetryLoop.head (logDebugTries cfg.ldebug x.tries) ≠ .usedUp

/-- The FIN of the sender. -/
def State.fin (s : State) : Frame := .intact (controlPacket s.sender.sqn rtpFin)

/-- The answer that the sender waits for. -/
def State.finAck (s : State) : Frame :=
  .intact (controlPacket s.sender.sqn (rtpAck ||| rtpFin))

namespace Sender

variable {cfg : SenderConfig} {x x' : Sender}

theorem step_finAck (hpc : x.pc = .finSent) (hfatal : x.fatal = false) :
    step cfg x (.recv (.ok (controlPacket x.sqn (rtpAck ||| rtpFin)))) =
      some ({ x with pc := .closed }, []) := by
  simp [step, recv, hpc, hfatal, RetryLoop.recv, senderBreakLoop, retry]

theorem head_of_resends (h : x.Resends cfg) :
    RetryLoop.head (logDebugTries cfg.ldebug x.tries) =
      .waiting (logDebugTries cfg.ldebug x.tries) := by
  rw [Resends, RetryLoop.head] at h
  rw [RetryLoop.head]
  split_ifs at h ⊢
  · exact absurd rfl h
  · rfl

/-- After a timeout the FIN is sent again. -/
theorem step_fin_timeout (hpc : x.pc = .finSent) (hfatal : x.fatal = false)
    (hresends : x.Resends cfg) :
    step cfg x (.recv .timeout) =
      some ({ x with tries := logDebugTries cfg.ldebug x.tries }, [controlPacket x.sqn rtpFin]) := by
  have hhead := head_of_resends hresends
  simp [step, recv, hpc, hfatal, RetryLoop.recv, RetryLoop.send, senderBreakLoop, hhead, retry]

/-- What a sender that waits for a FIN|ACK can do: stop for good, take the answer, or
send its FIN again. -/
theorem step_finSent {input : Input} {sent : List Packet}
    (h : step cfg x input = some (x', sent)) (hpc : x.pc = .finSent) :
    x'.fatal = true ∨
      (∃ p, input = .recv (.ok p) ∧ p.flags = rtpAck ||| rtpFin ∧ p.seqNum = x.sqn) ∨
      (x'.pc = .finSent ∧ x'.sqn = x.sqn ∧ x.Resends cfg ∧ sent = [controlPacket x.sqn rtpFin]) := by
  have hfatal := (move_of_step cfg h).1
  cases input with
  | exit =>
    simp only [step, hfatal, Bool.false_eq_true, if_false, Option.some.injEq, Prod.mk.injEq] at h
    rw [← h.1]
    exact .inl rfl
  | run => simp [step, run, hpc, hfatal] at h
  | recv r =>
    simp only [step, recv, hpc, hfatal, Bool.false_eq_true, if_false, Option.some.injEq] at h
    rcases RetryLoop.recv_cases (senderBreakLoop x.sqn) cfg.ldebug x.tries r with
      ⟨p, rfl, hacc, _⟩ | ⟨_, hrecv⟩
    · simp only [senderBreakLoop, Bool.and_eq_true, beq_iff_eq] at hacc
      exact .inr (.inl ⟨p, rfl, hacc.2, hacc.1⟩)
    · rw [hrecv, Prod.mk.injEq] at h
      obtain ⟨hx, hsent⟩ := h
      by_cases hresends : x.Resends cfg
      · refine .inr (.inr ?_)
        have hhead : RetryLoop.head (logDebugTries cfg.ldebug x.tries) =
            .waiting (logDebugTries cfg.ldebug x.tries) := head_of_resends hresends
        rw [hhead] at hx
        rw [← hx]
        exact ⟨hpc, rfl, hresends, hsent.symm⟩
      · rw [Resends, not_not] at hresends
        rw [hresends] at hx
        rw [← hx]
        exact .inl rfl

end Sender

namespace Receiver

variable {cfg : ReceiverConfig} {x x' : Receiver} {input : Input} {sent : List Packet}

/-- A FIN|ACK answers a FIN with the same number. -/
theorem step_finAck (h : step cfg x input = some (x', sent)) {q : Packet} (hq : q ∈ sent)
    (hflags : q.flags = rtpAck ||| rtpFin) :
    ∃ p, input = .recv (.ok p) ∧ p.flags = rtpFin ∧ q.seqNum = p.seqNum := by
  obtain ⟨hfatal, hmove⟩ := move_of_step cfg h
  cases hmove with
  | exit | listenTimeout | listenSkip | synAccept | enter | leave | skip | finSkip => cases hq
  | syn | synRetry =>
    rw [List.mem_singleton.mp hq, controlPacket_flags] at hflags
    exact absurd hflags (by decide)
  | data =>
    rw [(recvData_phase cfg x _).2.2 q hq] at hflags
    exact absurd hflags (by decide)
  | fin hpc hfin => exact ⟨_, rfl, hfin, by rw [List.mem_singleton.mp hq]; rfl⟩
  | @close r _ hpc sqn =>
    have hrecv : finRepliedRecv x r = ({ x with pc := .closed, sqn }, sent) := by
      simpa [step, recv, hpc, hfatal] using h
    cases r with
    | timeout | rejected =>
      rw [← (Prod.mk.inj hrecv).2] at hq
      cases hq
    | ok p =>
      have hsent := (Prod.mk.inj hrecv).2
      by_cases hfin : p.flags = rtpFin
      · rw [if_pos ⟨rfl, hfin⟩] at hsent
        rw [← hsent, List.mem_singleton] at hq
        exact ⟨p, rfl, hfin, by rw [hq]; rfl⟩
      · rw [if_neg fun hboth => hfin hboth.2] at hsent
        rw [← hsent] at hq
        cases hq

/-- The second FIN is answered too. -/
theorem step_fin_replied (hpc : x.pc = .finReplied) (hfatal : x.fatal = false) (seqNum : UInt32) :
    step cfg x (.recv (.ok (controlPacket seqNum rtpFin))) =
      some ({ x with pc := .closed, sqn := seqNum },
        [controlPacket seqNum (rtpAck ||| rtpFin)]) := by
  simp [step, recv, finRepliedRecv, hpc, hfatal]

end Receiver

/-! ## Runs without an answer -/

/-- The receiver has exited, or it waits for a third handshake that is not on its way. -/
def Silent (s : State) : Prop :=
  s.receiver.fatal = true ∨ s.receiver.pc = .closed ∨
    s.receiver.pc = .synReceived ∧ InFlight s.toReceiver fun p => p.flags ≠ rtpAck

/-- The sender has exited, or it waits for a FIN|ACK that is not on its way and that
nobody is going to send: the receiver is silent, or it has no FIN to answer and the
sender exits before it sends another one. -/
def Unanswered (cfg : Config) (s : State) : Prop :=
  s.sender.fatal = true ∨
    s.sender.pc = .finSent ∧
      (InFlight s.toSender fun p => p.flags = rtpAck ||| rtpFin → p.seqNum ≠ s.sender.sqn) ∧
      (Silent s ∨ ¬ s.sender.Resends cfg.sender ∧
        InFlight s.toReceiver fun p => p.flags = rtpFin → p.seqNum ≠ s.sender.sqn)

variable {cfg : Config} {s t : State} {e : Event}

/-- A silent receiver stays where it is and sends no FIN|ACK. -/
theorem Silent.receiver_step (h : Silent s) {input : Input} {c : List Frame} {x : Receiver}
    {sent : List Packet} (hreceives : Receives s.toReceiver input c)
    (hstep : s.receiver.step cfg.receiver input = some (x, sent)) (toSender : List Frame) :
    Silent ⟨s.sender, x, c, toSender⟩ ∧ ∀ q ∈ sent, q.flags ≠ rtpAck ||| rtpFin := by
  obtain ⟨hfatal, hmove⟩ := Receiver.move_of_step cfg.receiver hstep
  rcases h with hexited | hclosed | ⟨hwaits, hnone⟩
  · rw [hfatal] at hexited
    cases hexited
  · cases hmove with
    | exit =>
      refine ⟨.inl rfl, ?_⟩
      intro q hq
      cases hq
    | listenTimeout hpc | listenSkip hpc | syn hpc | synRetry hpc | synAccept hpc | enter hpc
    | leave hpc | skip hpc | data hpc | finSkip hpc | fin hpc | close hpc =>
      rw [hclosed] at hpc
      cases hpc
  · have hno : ∀ p, input = .recv (.ok p) → p.flags ≠ rtpAck := by
      rintro p rfl
      exact hnone.received hreceives
    refine ⟨.inr (.inr ⟨Receiver.step_synReceived hstep hwaits hno, hnone.receives hreceives⟩), ?_⟩
    intro q hq hflags
    obtain ⟨p, rfl, hfin, _⟩ := Receiver.step_finAck hstep hq hflags
    cases hmove with
    | synRetry =>
      rw [List.mem_singleton.mp hq, controlPacket_flags] at hflags
      exact absurd hflags (by decide)
    | synAccept => cases hq
    | listenSkip hpc | syn hpc | leave hpc | skip hpc | data hpc | finSkip hpc | fin hpc
    | close hpc =>
      rw [hwaits] at hpc
      cases hpc

/-- Once the sender is unanswered it stays so. -/
theorem Unanswered.step (h : Unanswered cfg s) (hstep : Step cfg s e t) : Unanswered cfg t := by
  rcases h with hexited | ⟨hpc, hnone, hsilent⟩
  · left
    cases hstep with
    | sender _ hstep =>
      rw [(Sender.move_of_step cfg.sender hstep).1] at hexited
      cases hexited
    | receiver | toReceiver | toSender => exact hexited
  cases hstep with
  | @sender input c x sent hreceives hstep =>
    rcases Sender.step_finSent hstep hpc with hexit | ⟨p, rfl, hflags, hseq⟩ | hagain
    · exact .inl hexit
    · exact absurd hseq (hnone.received hreceives hflags)
    · obtain ⟨hpc', hsqn, hresends, hsent⟩ := hagain
      have hstill : Silent s := hsilent.resolve_right fun hlast => hlast.1 hresends
      refine .inr ⟨hpc', ?_, .inl ?_⟩
      · exact (hnone.mono fun p hp => by rw [hsqn]; exact hp).receives hreceives
      · refine hstill.imp id (.imp id fun hwaits => ⟨hwaits.1, hwaits.2.send ?_⟩)
        rw [hsent]
        intro p hp
        rw [List.mem_singleton.mp hp]
        exact show rtpFin ≠ rtpAck by decide
  | @receiver input c x sent hreceives hstep =>
    refine .inr ⟨hpc, hnone.send ?_, ?_⟩
    · intro q hq hflags
      rcases hsilent with hsilent | ⟨_, hnofin⟩
      · exact absurd hflags ((hsilent.receiver_step hreceives hstep []).2 q hq)
      · obtain ⟨p, rfl, hfin, hseq⟩ := Receiver.step_finAck hstep hq hflags
        rw [hseq]
        exact hnofin.received hreceives hfin
    · rcases hsilent with hsilent | ⟨hlast, hnofin⟩
      · exact .inl (hsilent.receiver_step hreceives hstep _).1
      · exact .inr ⟨hlast, hnofin.receives hreceives⟩
  | toReceiver hchannel =>
    refine .inr ⟨hpc, hnone, ?_⟩
    rcases hsilent with hsilent | ⟨hlast, hnofin⟩
    · exact .inl (hsilent.imp id (.imp id fun hwaits => ⟨hwaits.1, hwaits.2.channel hchannel⟩))
    · exact .inr ⟨hlast, hnofin.channel hchannel⟩
  | toSender hchannel => exact .inr ⟨hpc, hnone.channel hchannel, hsilent⟩

/-- A run of an unanswered sender does not end normally. -/
theorem Unanswered.dead_end (h : Unanswered cfg s)
    (hpath : (network cfg).Path (fun _ => True) s t) (hclosed : t.sender.pc = .closed) :
    t.sender.fatal = true := by
  have ht : Unanswered cfg t :=
    hpath.invariant (P := Unanswered cfg) (fun _ _ _ hs _ hstep => hs.step hstep) h
  rcases ht with hexited | ⟨hpc, _⟩
  · exact hexited
  · rw [hclosed] at hpc
    cases hpc

/-! ## Runs with an answer -/

/-- The answer is on its way, and the receiver has only to return. -/
structure Answered (s t : State) : Prop where
  sender : t.sender = s.sender
  finAck : s.finAck ∈ t.toSender
  receiver : t.receiver.pc.pastFinWait ∧ t.receiver.fatal = false

/-- In `break_connection` the receiver answers a FIN. -/
theorem reply_path (cfg : Config) (hfatal : s.receiver.fatal = false)
    (hpc : s.receiver.pc = .finWait ∨ s.receiver.pc = .finReplied)
    (hfin : s.fin ∈ s.toReceiver) :
    ∃ t, (network cfg).Path (fun _ => True) s t ∧ Answered s t := by
  have hstart : (network cfg).Path (fun _ => True) s s := .refl s
  rcases hpc with hpc | hpc
  · have hpath := path_receiver hstart trivial (.frame hfin)
      (Receiver.step_fin cfg.receiver hpc hfatal s.sender.sqn)
    refine ⟨_, hpath, rfl, ?_, trivial, hfatal⟩
    exact List.mem_append_right _ (List.mem_singleton_self _)
  · have hpath := path_receiver hstart trivial (.frame hfin)
      (Receiver.step_fin_replied hpc hfatal s.sender.sqn)
    refine ⟨_, hpath, rfl, ?_, trivial, hfatal⟩
    exact List.mem_append_right _ (List.mem_singleton_self _)

/-- In `transfer_data` it can time out first. -/
theorem leave_path (cfg : Config) (hfatal : s.receiver.fatal = false) (hpc : s.receiver.pc = .transfer)
    (hfin : s.fin ∈ s.toReceiver) :
    ∃ t, (network cfg).Path (fun _ => True) s t ∧ Answered s t := by
  have hstart : (network cfg).Path (fun _ => True) s s := .refl s
  have hpath := path_receiver hstart trivial .timeout
    (Receiver.step_transfer_timeout cfg.receiver hpc hfatal)
  rw [List.map_nil, List.append_nil] at hpath
  obtain ⟨t, hrest, hanswered⟩ := reply_path cfg
    (s := { s with receiver := s.receiver.transferEnd }) hfatal (.inl rfl) hfin
  exact ⟨t, hpath.trans hrest, hanswered.sender, hanswered.finAck, hanswered.receiver⟩

theorem enter_path (cfg : Config) (hfatal : s.receiver.fatal = false) (hpc : s.receiver.pc = .established)
    (hfin : s.fin ∈ s.toReceiver) :
    ∃ t, (network cfg).Path (fun _ => True) s t ∧ Answered s t := by
  have hstart : (network cfg).Path (fun _ => True) s s := .refl s
  have hpath := path_receiver hstart trivial .run (Receiver.step_enter cfg.receiver hpc hfatal)
  rw [List.map_nil, List.append_nil] at hpath
  obtain ⟨t, hrest, hanswered⟩ := leave_path cfg
    (s := { s with receiver := Receiver.transferStart cfg.receiver s.receiver }) hfatal rfl hfin
  exact ⟨t, hpath.trans hrest, hanswered.sender, hanswered.finAck, hanswered.receiver⟩

/-- The third packet of the handshake is taken before the FIN. -/
theorem establish_path (hfatal : s.receiver.fatal = false) (hpc : s.receiver.pc = .synReceived)
    (hack : .intact (controlPacket s.receiver.sqn rtpAck) ∈ s.toReceiver)
    (hfin : s.fin ∈ s.toReceiver) :
    ∃ t, (network cfg).Path (fun _ => True) s t ∧ Answered s t := by
  have hstart : (network cfg).Path (fun _ => True) s s := .refl s
  have hpath := path_receiver hstart trivial (.frame hack)
    (Receiver.step_ack cfg.receiver hpc hfatal)
  rw [List.map_nil, List.append_nil] at hpath
  have hne : s.fin ≠ .intact (controlPacket s.receiver.sqn rtpAck) := by
    intro heq
    have hflags := congrArg Packet.flags (Frame.intact.inj heq)
    exact absurd hflags (show rtpFin ≠ rtpAck by decide)
  have hleft := (List.mem_erase_of_ne hne).mpr hfin
  obtain ⟨t, hrest, hanswered⟩ := enter_path cfg
    (s := { s with
      receiver := { s.receiver with pc := .established }
      toReceiver := s.toReceiver.erase (.intact (controlPacket s.receiver.sqn rtpAck)) })
    hfatal rfl hleft
  exact ⟨t, hpath.trans hrest, hanswered.sender, hanswered.finAck, hanswered.receiver⟩

/-- A receiver that answers gets to a FIN that is in flight. -/
theorem answer_path (hs : (network cfg).Reachable s) (hsender : s.sender.pc ≠ .synSent)
    (hanswers : s.Answers cfg) (hfin : s.fin ∈ s.toReceiver) :
    ∃ t, (network cfg).Path (fun _ => True) s t ∧ Answered s t := by
  obtain ⟨hfatal, hopen, hack⟩ := hanswers
  cases hpc : s.receiver.pc with
  | listen => exact absurd hpc ((heard_of_reachable hs).sender hsender)
  | synReceived =>
    have hmem := hack hpc
    rw [← (lifecycle_reachable hs).receiverSqn (.inl hpc)] at hmem
    exact establish_path hfatal hpc hmem hfin
  | established => exact enter_path cfg hfatal hpc hfin
  | transfer => exact leave_path cfg hfatal hpc hfin
  | finWait => exact reply_path cfg hfatal (.inl hpc) hfin
  | finReplied => exact reply_path cfg hfatal (.inr hpc) hfin
  | closed => exact absurd hpc hopen

/-- The sender waits, and has its FIN sent again if it has to. -/
theorem fin_path (hpc : s.sender.pc = .finSent) (hrunning : s.sender.fatal = false)
    (hresends : s.sender.Resends cfg.sender) :
    ∃ t, (network cfg).Path (fun _ => True) s t ∧ t.sender.pc = .finSent ∧
      t.sender.fatal = false ∧ t.sender.sqn = s.sender.sqn ∧ t.receiver = s.receiver ∧
      (∀ f ∈ s.toReceiver, f ∈ t.toReceiver) ∧ s.fin ∈ t.toReceiver := by
  have hstart : (network cfg).Path (fun _ => True) s s := .refl s
  have hpath := path_sender hstart trivial .timeout
    (Sender.step_fin_timeout hpc hrunning hresends)
  refine ⟨_, hpath, hpc, hrunning, rfl, rfl, ?_, ?_⟩
  · intro f hf
    exact List.mem_append_left _ hf
  · exact List.mem_append_right _ (List.mem_singleton_self _)

/-- The FIN|ACK in flight lets the sender return. -/
theorem close_path (cfg : Config) (hpc : s.sender.pc = .finSent) (hrunning : s.sender.fatal = false)
    (hmem : s.finAck ∈ s.toSender) :
    ∃ t, (network cfg).Path (fun _ => True) s t ∧ t.sender.pc = .closed ∧
      t.sender.fatal = false ∧ t.receiver = s.receiver := by
  have hstart : (network cfg).Path (fun _ => True) s s := .refl s
  have hpath := path_sender hstart trivial (.frame hmem)
    (Sender.step_finAck hpc hrunning)
  exact ⟨_, hpath, rfl, hrunning, rfl⟩

/-- A sender with a FIN in flight to a receiver that answers can return. -/
theorem answered_path (hs : (network cfg).Reachable s) (hpc : s.sender.pc = .finSent)
    (hrunning : s.sender.fatal = false) (hanswers : s.Answers cfg)
    (hfin : s.fin ∈ s.toReceiver) :
    ∃ t, (network cfg).Path (fun _ => True) s t ∧ t.sender.pc = .closed ∧
      t.sender.fatal = false ∧ t.receiver.pc.pastFinWait ∧ t.receiver.fatal = false := by
  have hpast : s.sender.pc ≠ .synSent := by
    rw [hpc]
    decide
  obtain ⟨t, hpath, hsender, hmem, hreceiver⟩ := answer_path hs hpast hanswers hfin
  have hmem' : t.finAck ∈ t.toSender := by
    rw [State.finAck, hsender]
    exact hmem
  obtain ⟨u, hrest, hclosed, hnormal, hsame⟩ :=
    close_path cfg (hsender ▸ hpc) (hsender ▸ hrunning) hmem'
  rw [← hsame] at hreceiver
  exact ⟨u, hpath.trans hrest, hclosed, hnormal, hreceiver⟩

/-! ## When the sender can return -/

/-- No FIN|ACK with the number of the sender is in flight. -/
theorem no_finAck (hs : (network cfg).Reachable s) (hnone : s.finAck ∉ s.toSender) :
    InFlight s.toSender fun p => p.flags = rtpAck ||| rtpFin → p.seqNum ≠ s.sender.sqn := by
  have hlifecycle := lifecycle_reachable hs
  intro f hf
  cases f with
  | corrupted p => trivial
  | intact p =>
    intro hflags hseq
    cases hlifecycle.toSender _ hf with
    | synAck => exact absurd hflags (show rtpAck ||| rtpSyn ≠ rtpAck ||| rtpFin by decide)
    | ack hack =>
      rw [hack] at hflags
      exact absurd hflags (by decide)
    | finAck _ sqn =>
      rw [controlPacket_seqNum] at hseq
      rw [hseq] at hf
      exact hnone hf

theorem no_fin (hs : (network cfg).Reachable s) (hnone : s.fin ∉ s.toReceiver) :
    InFlight s.toReceiver fun p => p.flags = rtpFin → p.seqNum ≠ s.sender.sqn := by
  have hlifecycle := lifecycle_reachable hs
  intro f hf
  cases f with
  | corrupted p => trivial
  | intact p =>
    intro hflags hseq
    cases hlifecycle.toReceiver _ hf with
    | syn => exact absurd hflags (show rtpSyn ≠ rtpFin by decide)
    | ack => exact absurd hflags (show rtpAck ≠ rtpFin by decide)
    | data hdata =>
      rw [hdata] at hflags
      exact absurd hflags (by decide)
    | fin _ sqn =>
      rw [controlPacket_seqNum] at hseq
      rw [hseq] at hf
      exact hnone hf

/-- No third handshake is in flight. -/
theorem no_ack (hs : (network cfg).Reachable s)
    (hnone : .intact (controlPacket cfg.sender.start rtpAck) ∉ s.toReceiver) :
    InFlight s.toReceiver fun p => p.flags ≠ rtpAck := by
  intro f hf
  cases f with
  | corrupted p => trivial
  | intact p =>
    intro hflags
    have heq := ((lifecycle_reachable hs).toReceiver _ hf).eq_ack hflags
    rw [heq] at hf
    exact hnone hf

/-- A receiver that does not answer is silent. -/
theorem silent_of_not_answers (hs : (network cfg).Reachable s) (h : ¬ s.Answers cfg) :
    Silent s := by
  by_contra hsilent
  rw [Silent, not_or, not_or] at hsilent
  obtain ⟨hrunning, hopen, hwaits⟩ := hsilent
  refine h ⟨by simpa using hrunning, hopen, fun hpc => ?_⟩
  by_contra hnone
  exact hwaits ⟨hpc, no_ack hs hnone⟩

/-- **The sender that waits for its FIN|ACK can still return normally** exactly when a
FIN|ACK is in flight, or when the receiver answers and either a FIN is in flight or the
sender will send one and live. -/
theorem teardown_completes_iff (cfg : Config) {s : State} (hs : (network cfg).Reachable s)
    (hpc : s.sender.pc = .finSent) (hrunning : s.sender.fatal = false) :
    (∃ t, (network cfg).Path (fun _ => True) s t ∧ t.sender.pc = .closed ∧
      t.sender.fatal = false) ↔
      s.finAck ∈ s.toSender ∨
        s.Answers cfg ∧ (s.fin ∈ s.toReceiver ∨ s.sender.Resends cfg.sender) := by
  constructor
  · intro ⟨t, hpath, hclosed, hnormal⟩
    by_contra hno
    rw [not_or] at hno
    obtain ⟨hnone, hno⟩ := hno
    have hsilent : Silent s ∨ ¬ s.sender.Resends cfg.sender ∧
        InFlight s.toReceiver fun p => p.flags = rtpFin → p.seqNum ≠ s.sender.sqn := by
      by_cases hanswers : s.Answers cfg
      · have hlast : ¬ (s.fin ∈ s.toReceiver ∨ s.sender.Resends cfg.sender) :=
          fun hagain => hno ⟨hanswers, hagain⟩
        rw [not_or] at hlast
        exact .inr ⟨hlast.2, no_fin hs hlast.1⟩
      · exact .inl (silent_of_not_answers hs hanswers)
    have hunanswered : Unanswered cfg s := .inr ⟨hpc, no_finAck hs hnone, hsilent⟩
    rw [hunanswered.dead_end hpath hclosed] at hnormal
    cases hnormal
  · rintro (hmem | ⟨hanswers, hfin | hresends⟩)
    · obtain ⟨t, hpath, hclosed, hnormal, _⟩ := close_path cfg hpc hrunning hmem
      exact ⟨t, hpath, hclosed, hnormal⟩
    · obtain ⟨t, hpath, hclosed, hnormal, _⟩ := answered_path hs hpc hrunning hanswers hfin
      exact ⟨t, hpath, hclosed, hnormal⟩
    · obtain ⟨t, hpath, hpc', hrunning', hsqn, hsame, hkept, hfin⟩ :=
        fin_path hpc hrunning hresends
      have hanswers' : t.Answers cfg := by
        rw [State.Answers, hsame]
        exact ⟨hanswers.1, hanswers.2.1, fun hwaits => hkept _ (hanswers.2.2 hwaits)⟩
      have hfin' : t.fin ∈ t.toReceiver := by
        rw [State.fin, hsqn]
        exact hfin
      obtain ⟨u, hrest, hclosed, hnormal, _⟩ :=
        answered_path (hs.path hpath) hpc' hrunning' hanswers' hfin'
      exact ⟨u, hpath.trans hrest, hclosed, hnormal⟩

/-- Selective repeat with an empty file. -/
def emptyFile : Config where
  sender := { isn := getRandomSeqnum, file := [], wsize := 1, wsize_pos := Nat.one_pos,
              mode := .sr, ldebug := false }
  receiver := { wsize := 1, wsize_pos := Nat.one_pos, mode := .sr, ldebug := false }

/-- Its sender comes to its FIN without any data, and the receiver answers. -/
theorem teardown_completes_emptyFile :
    ∃ s, (network emptyFile).Reachable s ∧ s.sender.pc = .finSent ∧
      ∃ t, (network emptyFile).Path (fun _ => True) s t ∧ t.sender.pc = .closed ∧
        t.sender.fatal = false := by
  have h := transfer_reachable emptyFile ⟨.transferred, false, 0, 0, 0, 0, [false]⟩ []
    (by decide +kernel)
  have hfin : Sender.step emptyFile.sender ⟨.transferred, false, 0, 0, 0, 0, [false]⟩ .run =
      some (⟨.finSent, false, 0, 0, 0, 0, [false]⟩, [controlPacket 0 rtpFin]) := rfl
  replace h := reachable_sender h .run hfin
  refine ⟨_, h, rfl, (teardown_completes_iff emptyFile h rfl rfl).mpr (.inr ⟨?_, .inl ?_⟩)⟩
  · exact ⟨rfl, nofun, nofun⟩
  · exact List.mem_singleton_self _

end NetLabs.Rtp
