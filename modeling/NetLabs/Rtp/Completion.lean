import NetLabs.Rtp.Recovery

/-!
# Which connections can still be completed

A connection is complete when both programs have returned normally.  In a
release build the retry loops never give up, so that nothing but a lost third
handshake, a packet that nobody answers any more, or a lost FIN|ACK can keep
the two programs from it.

* `Completable` says of a state that none of these has happened.
* `connection_completes_iff`: a reachable state has a run that completes the
  connection exactly when it is `Completable`, and the file is then the one that
  was assigned to the packets.  Both programs run in one mode, and in selective
  repeat the receiver's window is at most `2 ^ 30` (`Config.Compatible`).

The runs are put together phase by phase: `open_path` for the handshake,
`transfer_path` for the data, `finish_path` for the teardown.
-/

namespace NetLabs.Rtp

open NetLabs.Lib

/-! ## Release builds do not give up -/

/-- Both programs are built without `LDEBUG`. -/
structure Config.Release (cfg : Config) : Prop where
  sender : cfg.sender.ldebug = false
  receiver : cfg.receiver.ldebug = false

namespace RetryLoop

/-- Without `LDEBUG` the counter stays where it is. -/
theorem head_release {tries : Nat} (ht : tries ≤ sendTr) :
    head (logDebugTries false tries) = .waiting tries := by
  simp only [logDebugTries, Bool.false_eq_true, if_false, head]
  rw [if_neg (by omega)]

theorem recv_release (loop : RetryLoop) {tries : Nat} (ht : tries ≤ sendTr) (r : Recv) :
    loop.recv false tries r = (.accepted, []) ∨
      loop.recv false tries r = (.waiting tries, [loop.packet]) := by
  rcases recv_cases loop false tries r with ⟨_, _, _, hrecv⟩ | ⟨_, hrecv⟩
  · exact .inl hrecv
  · exact .inr (by rw [hrecv, head_release ht])

end RetryLoop

namespace Sender

variable {cfg : SenderConfig} {x x' : Sender}

theorem transferLoop_tries (x : Sender) : (transferLoop cfg x).1.tries = x.tries := by
  unfold transferLoop
  split
  · split <;> rfl
  · rfl

theorem transferRecv_tries (x : Sender) (r : Recv) :
    (transferRecv cfg x r).1.tries = x.tries := by
  cases r with
  | timeout => exact transferLoop_tries x
  | rejected p => exact transferLoop_tries x
  | ok p =>
    rcases transferRecv_ok cfg x p with heq | ⟨_, _, heq⟩
    · rw [heq, transferLoop_tries]
    · rw [heq, transferLoop_tries]
      rfl

theorem step_tries (hrelease : cfg.ldebug = false) {input : Input} {sent : List Packet}
    (h : step cfg x input = some (x', sent)) (ht : x.tries ≤ sendTr) : x'.tries ≤ sendTr := by
  have hfatal := (move_of_step cfg h).1
  cases input with
  | exit =>
    simp only [step, hfatal, Bool.false_eq_true, if_false, Option.some.injEq, Prod.mk.injEq] at h
    rw [← h.1]
    exact ht
  | run =>
    simp only [step, hfatal, Bool.false_eq_true, if_false, run] at h
    split at h
    · have hx : (transferStart cfg x).1 = x' := congrArg Prod.fst (Option.some.inj h)
      rw [← hx]
      exact (transferLoop_tries _).trans_le ht
    · simp only [RetryLoop.start, RetryLoop.send, hrelease,
        RetryLoop.head_release (Nat.zero_le _), retry] at h
      rw [← (Prod.mk.inj (Option.some.inj h)).1]
      exact Nat.zero_le _
    · cases h
  | recv r =>
    simp only [step, hfatal, Bool.false_eq_true, if_false, recv] at h
    split at h
    · rcases (senderEstablishLoop x.sqn).recv_release ht r with hrecv | hrecv <;>
        rw [hrelease, hrecv] at h <;>
        rw [← (Prod.mk.inj (Option.some.inj h)).1] <;> exact ht
    · rw [← (Prod.mk.inj (Option.some.inj h)).1]
      exact ht
    · have hx : (transferRecv cfg x r).1 = x' := congrArg Prod.fst (Option.some.inj h)
      rw [← hx, transferRecv_tries]
      exact ht
    · rcases (senderBreakLoop x.sqn).recv_release ht r with hrecv | hrecv <;>
        rw [hrelease, hrecv] at h <;>
        rw [← (Prod.mk.inj (Option.some.inj h)).1] <;> exact ht
    · cases h

/-- After a timeout the SYN is sent again. -/
theorem step_syn_timeout (hrelease : cfg.ldebug = false) (ht : x.tries ≤ sendTr)
    (hpc : x.pc = .synSent) (hfatal : x.fatal = false) :
    step cfg x (.recv .timeout) = some (x, [controlPacket x.sqn rtpSyn]) := by
  obtain ⟨pc, fatal, tries, sqn, wbase, shift, window⟩ := x
  obtain rfl : pc = .synSent := hpc
  obtain rfl : fatal = false := hfatal
  have hhead : RetryLoop.head (logDebugTries cfg.ldebug tries) = .waiting tries := by
    rw [hrelease]
    exact RetryLoop.head_release ht
  simp [step, recv, RetryLoop.recv, RetryLoop.send, hhead, retry, senderEstablishLoop]

/-- The SYN|ACK that arrives once more is answered once more. -/
theorem step_confirm_synAck (cfg : SenderConfig) (hpc : x.pc = .ackSent) (hfatal : x.fatal = false) :
    step cfg x (.recv (.ok (controlPacket x.sqn (rtpAck ||| rtpSyn)))) =
      some ({ x with pc := .established }, [controlPacket x.sqn rtpAck]) := by
  simp [step, recv, hpc, hfatal]

/-- The first FIN. -/
theorem step_fin_start (hrelease : cfg.ldebug = false) (hpc : x.pc = .transferred)
    (hfatal : x.fatal = false) :
    step cfg x .run =
      some ({ x with pc := .finSent, tries := 0 }, [controlPacket x.sqn rtpFin]) := by
  simp only [step, hfatal, run, hpc, RetryLoop.start, RetryLoop.send, hrelease,
    RetryLoop.head_release (Nat.zero_le _), retry]
  rfl

end Sender

namespace Receiver

variable {cfg : ReceiverConfig} {x x' : Receiver}

theorem recvData_tries (x : Receiver) (p : Packet) : (recvData cfg x p).1.tries = x.tries := by
  unfold recvData
  split
  · unfold recvSr
    split
    · rfl
    · split <;> rfl
  · unfold recvGbn
    split <;> rfl

theorem step_tries (hrelease : cfg.ldebug = false) {input : Input} {sent : List Packet}
    (h : step cfg x input = some (x', sent)) (ht : x.tries ≤ sendTr) : x'.tries ≤ sendTr := by
  have ⟨hfatal, hmove⟩ := move_of_step cfg h
  cases hmove with
  | exit | listenTimeout | listenSkip | synAccept | enter | leave | skip | finSkip | fin
  | close => exact ht
  | data => rw [recvData_tries]; exact ht
  | @syn p hpc hflags tries fatal =>
    simp only [step, hfatal, Bool.false_eq_true, if_false, recv, hpc, listenRecv, if_pos hflags,
      RetryLoop.start, RetryLoop.send, hrelease, RetryLoop.head_release (Nat.zero_le _), retry,
      Option.some.injEq, Prod.mk.injEq] at h
    rw [← h.1]
    exact Nat.zero_le _
  | @synRetry r hpc tries fatal =>
    simp only [step, hfatal, Bool.false_eq_true, if_false, recv, hpc] at h
    have hsame : tries = x.tries := by
      rcases (receiverEstablishLoop x.sqn).recv_release ht r with hrecv | hrecv <;>
        rw [hrelease, hrecv] at h <;>
        exact (congrArg Receiver.tries (congrArg Prod.fst (Option.some.inj h))).symm
    exact hsame.trans_le ht

/-- A SYN is answered by the second handshake. -/
theorem step_listen_syn (hrelease : cfg.ldebug = false) (hpc : x.pc = .listen)
    (hfatal : x.fatal = false) (seqNum : UInt32) :
    step cfg x (.recv (.ok (controlPacket seqNum rtpSyn))) =
      some ({ x with pc := .synReceived, tries := 0, sqn := seqnumAdd seqNum 1 },
        [controlPacket (seqnumAdd seqNum 1) (rtpAck ||| rtpSyn)]) := by
  simp only [step, hfatal, recv, hpc, listenRecv, controlPacket_flags, controlPacket_seqNum,
    RetryLoop.start, RetryLoop.send, hrelease, RetryLoop.head_release (Nat.zero_le _), retry]
  rfl

/-- After a timeout the second handshake is sent again. -/
theorem step_synAck_timeout (hrelease : cfg.ldebug = false) (ht : x.tries ≤ sendTr)
    (hpc : x.pc = .synReceived) (hfatal : x.fatal = false) :
    step cfg x (.recv .timeout) = some (x, [controlPacket x.sqn (rtpAck ||| rtpSyn)]) := by
  obtain ⟨pc, fatal, tries, sqn, wbase, shift, fsize, window, buf, file⟩ := x
  obtain rfl : pc = .synReceived := hpc
  obtain rfl : fatal = false := hfatal
  have hhead : RetryLoop.head (logDebugTries cfg.ldebug tries) = .waiting tries := by
    rw [hrelease]
    exact RetryLoop.head_release ht
  simp [step, recv, RetryLoop.recv, RetryLoop.send, hhead, retry, receiverEstablishLoop]

end Receiver

variable {cfg : Config} {s t : State} {e : Event}

/-- The counters of a release build never reach their limit. -/
theorem tries_le (hrelease : cfg.Release) (hs : (network cfg).Reachable s) :
    s.sender.tries ≤ sendTr ∧ s.receiver.tries ≤ sendTr := by
  refine hs.invariant (P := fun s => s.sender.tries ≤ sendTr ∧ s.receiver.tries ≤ sendTr) ?_ ?_
  · intro s hinit
    rw [show s = State.start cfg from hinit, State.start, Sender.start_eq, hrelease.sender]
    exact ⟨Nat.zero_le _, Nat.zero_le _⟩
  · intro s e t _ h hstep
    cases hstep with
    | sender _ hstep => exact ⟨Sender.step_tries hrelease.sender hstep h.1, h.2⟩
    | receiver _ hstep => exact ⟨h.1, Receiver.step_tries hrelease.receiver hstep h.2⟩
    | toReceiver | toSender => exact h

theorem resends_of_release (hrelease : cfg.Release) (hs : (network cfg).Reachable s) :
    s.sender.Resends cfg.sender := by
  rw [Sender.Resends, hrelease.sender, RetryLoop.head_release (tries_le hrelease hs).1]
  intro hused
  cases hused

/-! ## What must not be gone -/

/-- Nothing that the connection still needs is gone. -/
structure Completable (cfg : Config) (s : State) : Prop where
  sender : s.sender.fatal = false
  receiver : s.receiver.fatal = false
  handshake : s.sender.pc.pastEstablish → s.receiver.pc = .synReceived →
    .intact (controlPacket cfg.sender.start rtpAck) ∈ s.toReceiver
  data : ∀ k < cfg.sender.npacket, k ∉ s.sender.acked →
    s.HasAck cfg k ∨ ¬ s.receiver.pc.leftTransfer ∧ s.receiver.Reaches cfg.receiver k
  teardown : s.receiver.pc = .closed → s.sender.pc = .closed ∨ s.finAck ∈ s.toSender

/-- Both programs have returned normally. -/
def State.Complete (s : State) : Prop :=
  s.sender.pc = .closed ∧ s.sender.fatal = false ∧ s.receiver.pc = .closed ∧
    s.receiver.fatal = false

theorem ReceiverPc.entered_of_left {pc : ReceiverPc} (h : pc.leftTransfer) : pc.enteredTransfer := by
  cases pc with
  | listen | synReceived | established | transfer => exact h.elim
  | finWait | finReplied | closed => trivial

/-- A receiver that is not in its loop yet has everything before it. -/
theorem Completable.of_idle (hcfg : cfg.Compatible) (hs : (network cfg).Reachable s)
    (hsender : s.sender.fatal = false) (hreceiver : s.receiver.fatal = false)
    (hidle : ¬ s.receiver.pc.enteredTransfer)
    (hack : s.sender.pc.pastEstablish → s.receiver.pc = .synReceived →
      .intact (controlPacket cfg.sender.start rtpAck) ∈ s.toReceiver) : Completable cfg s where
  sender := hsender
  receiver := hreceiver
  handshake := hack
  data _ _ _ := by
    refine .inr ⟨fun hleft => hidle (ReceiverPc.entered_of_left hleft), fun _ => ?_⟩
    rw [((dataInv_reachable hcfg (starts_network cfg) hs).receiver.idle hidle).1]
    exact Nat.zero_le _
  teardown hclosed := by
    rw [hclosed] at hidle
    exact absurd trivial hidle

/-! ## Runs through the handshake -/

/-- The second handshake. -/
abbrev SenderConfig.synAck (cfg : SenderConfig) : Frame :=
  .intact (controlPacket cfg.start (rtpAck ||| rtpSyn))

/-- A receiver in its first loop hears the SYN that is sent again. -/
theorem listen_path (hrelease : cfg.Release) (hs : (network cfg).Reachable s)
    (hsender : s.sender.pc = .synSent ∧ s.sender.fatal = false)
    (hpc : s.receiver.pc = .listen) (hrunning : s.receiver.fatal = false) :
    ∃ t, (network cfg).Path (fun _ => True) s t ∧ t.sender = s.sender ∧
      t.receiver.pc = .synReceived ∧ t.receiver.fatal = false ∧
      cfg.sender.synAck ∈ t.toSender := by
  have hstart : (network cfg).Path (fun _ => True) s s := .refl s
  have hsyn := path_sender hstart trivial .timeout (Sender.step_syn_timeout
    hrelease.sender (tries_le hrelease hs).1 hsender.1 hsender.2)
  rw [(lifecycle_reachable hs).isn hsender.1] at hsyn
  have hhear := path_receiver hsyn trivial
    (.frame (List.mem_append_right _ (List.mem_singleton_self _)))
    (Receiver.step_listen_syn hrelease.receiver hpc hrunning cfg.sender.isn)
  exact ⟨_, hhear, rfl, rfl, hrunning, List.mem_append_right _ (List.mem_singleton_self _)⟩

/-- A receiver in its second loop repeats the second handshake. -/
theorem synAck_path (hrelease : cfg.Release) (hs : (network cfg).Reachable s)
    (hpc : s.receiver.pc = .synReceived) (hrunning : s.receiver.fatal = false) :
    ∃ t, (network cfg).Path (fun _ => True) s t ∧ t.sender = s.sender ∧
      t.receiver = s.receiver ∧ cfg.sender.synAck ∈ t.toSender := by
  have hstart : (network cfg).Path (fun _ => True) s s := .refl s
  have hagain := path_receiver hstart trivial .timeout (Receiver.step_synAck_timeout
    hrelease.receiver (tries_le hrelease hs).2 hpc hrunning)
  rw [(lifecycle_reachable hs).receiverSqn (.inl hpc)] at hagain
  exact ⟨_, hagain, rfl, rfl, List.mem_append_right _ (List.mem_singleton_self _)⟩

/-- The first loop of the sender ends. -/
theorem synSent_path (hcfg : cfg.Compatible) (hrelease : cfg.Release)
    (hs : (network cfg).Reachable s) (h : Completable cfg s) (hpc : s.sender.pc = .synSent) :
    ∃ t, (network cfg).Path (fun _ => True) s t ∧ Completable cfg t ∧
      t.sender.pc = .ackSent := by
  have hanswered : ∃ t, (network cfg).Path (fun _ => True) s t ∧ t.sender = s.sender ∧
      t.receiver.pc = .synReceived ∧ t.receiver.fatal = false ∧ cfg.sender.synAck ∈ t.toSender := by
    have hearly : ¬ s.receiver.pc.pastEstablish := fun hpast =>
      (lifecycle_reachable hs).accepted hpast hpc
    cases hreceiver : s.receiver.pc with
    | listen => exact listen_path hrelease hs ⟨hpc, h.sender⟩ hreceiver h.receiver
    | synReceived =>
      obtain ⟨t, hpath, hsender, hsame, hmem⟩ := synAck_path hrelease hs hreceiver h.receiver
      exact ⟨t, hpath, hsender, hsame ▸ hreceiver, hsame ▸ h.receiver, hmem⟩
    | established | transfer | finWait | finReplied | closed =>
      rw [hreceiver] at hearly
      exact absurd trivial hearly
  obtain ⟨t, hpath, hsender, hreceiver, hrunning, hmem⟩ := hanswered
  have hsqn : t.sender.sqn = cfg.sender.isn := by
    rw [hsender]
    exact (lifecycle_reachable hs).isn hpc
  have hstep := Sender.step_synAck cfg.sender (hsender ▸ hpc) (hsender ▸ h.sender)
  rw [hsqn] at hstep
  have haccept := path_sender hpath trivial (.frame hmem) hstep
  refine ⟨_, haccept, ?_, rfl⟩
  refine .of_idle hcfg (hs.path haccept) (hsender ▸ h.sender) hrunning ?_ False.elim
  rw [show t.receiver.pc = _ from hreceiver]
  exact id

/-- The single extra receive of the sender. -/
theorem ackSent_path (hcfg : cfg.Compatible) (hrelease : cfg.Release)
    (hs : (network cfg).Reachable s) (h : Completable cfg s) (hpc : s.sender.pc = .ackSent) :
    ∃ t, (network cfg).Path (fun _ => True) s t ∧ Completable cfg t ∧
      t.sender.pc = .established := by
  by_cases hwaits : s.receiver.pc = .synReceived
  · -- the second handshake comes again, and so does the third
    obtain ⟨t, hpath, hsender, hreceiver, hmem⟩ := synAck_path hrelease hs hwaits h.receiver
    have hsqn : t.sender.sqn = cfg.sender.start := by
      rw [hsender]
      exact (lifecycle_reachable hs).senderSqn (.inl hpc)
    have hstep := Sender.step_confirm_synAck cfg.sender (hsender ▸ hpc)
      (hsender ▸ h.sender)
    rw [hsqn] at hstep
    have hconfirm := path_sender hpath trivial (.frame hmem) hstep
    refine ⟨_, hconfirm, ?_, rfl⟩
    refine .of_idle hcfg (hs.path hconfirm) (hsender ▸ h.sender) (hreceiver ▸ h.receiver) ?_
      fun _ _ => List.mem_append_right _ (List.mem_singleton_self _)
    rw [show t.receiver.pc = _ from (congrArg Receiver.pc hreceiver).trans hwaits]
    exact id
  · have hstart : (network cfg).Path (fun _ => True) s s := .refl s
    have hlate := path_sender hstart trivial .timeout
      (Sender.step_confirm_timeout cfg.sender hpc h.sender)
    rw [List.map_nil, List.append_nil] at hlate
    have hnone : s.sender.acked = ∅ := Sender.acked_of_not_entered (by rw [hpc]; exact id)
    refine ⟨_, hlate, ⟨h.sender, h.receiver, fun _ hsyn => absurd hsyn hwaits, ?_, ?_⟩, rfl⟩
    · exact fun k hk _ => h.data k hk (by rw [hnone]; exact id)
    · intro hclosed
      rcases h.teardown hclosed with hdone | hmem
      · rw [hpc] at hdone
        cases hdone
      · exact .inr hmem

/-- The sender enters `transfer_data`. -/
theorem established_path (hs : (network cfg).Reachable s) (h : Completable cfg s)
    (hpc : s.sender.pc = .established) :
    ∃ t, (network cfg).Path (fun _ => True) s t ∧ Completable cfg t ∧
      t.sender.pc.enteredTransfer := by
  have hstart : (network cfg).Path (fun _ => True) s s := .refl s
  have henter := path_sender hstart trivial .run (Sender.step_enter cfg.sender hpc h.sender)
  have hpast : s.sender.pc.pastEstablish := by rw [hpc]; trivial
  have hnone : s.sender.acked = ∅ := Sender.acked_of_not_entered (by rw [hpc]; exact id)
  refine ⟨_, henter, ⟨?_, h.receiver, ?_, ?_, ?_⟩, ?_⟩
  · exact (Sender.transferLoop_fatal _).trans h.sender
  · exact fun _ hwaits => List.mem_append_left _ (h.handshake hpast hwaits)
  · exact fun k hk _ => h.data k hk (by rw [hnone]; exact id)
  · intro hclosed
    have hleft := (lifecycle_reachable hs).senderLeft
      (show s.receiver.pc.pastFinWait by rw [show s.receiver.pc = _ from hclosed]; trivial)
    rw [hpc] at hleft
    exact hleft.elim
  · rcases (Sender.transferLoop_phase cfg.sender { s.sender with
      wbase := s.sender.sqn, shift := 0, window := List.replicate cfg.sender.wsize false }).1
      with hphase | hphase <;> rw [Sender.transferStart, hphase] <;> trivial

/-- The handshake can be finished. -/
theorem open_path (hcfg : cfg.Compatible) (hrelease : cfg.Release)
    (hs : (network cfg).Reachable s) (h : Completable cfg s) :
    ∃ t, (network cfg).Path (fun _ => True) s t ∧ Completable cfg t ∧
      t.sender.pc.enteredTransfer := by
  have hlast : ∀ u, (network cfg).Path (fun _ => True) s u → Completable cfg u →
      u.sender.pc = .established → ∃ t, (network cfg).Path (fun _ => True) s t ∧
        Completable cfg t ∧ t.sender.pc.enteredTransfer := by
    intro u hpath hu hpc
    obtain ⟨t, hrest, ht, hentered⟩ := established_path (hs.path hpath) hu hpc
    exact ⟨t, hpath.trans hrest, ht, hentered⟩
  have hextra : ∀ u, (network cfg).Path (fun _ => True) s u → Completable cfg u →
      u.sender.pc = .ackSent → ∃ t, (network cfg).Path (fun _ => True) s t ∧
        Completable cfg t ∧ t.sender.pc.enteredTransfer := by
    intro u hpath hu hpc
    obtain ⟨t, hrest, ht, hpc'⟩ := ackSent_path hcfg hrelease (hs.path hpath) hu hpc
    exact hlast t (hpath.trans hrest) ht hpc'
  cases hpc : s.sender.pc with
  | synSent =>
    obtain ⟨t, hpath, ht, hpc'⟩ := synSent_path hcfg hrelease hs h hpc
    exact hextra t hpath ht hpc'
  | ackSent => exact hextra s (.refl s) h hpc
  | established => exact hlast s (.refl s) h hpc
  | transfer | transferred | finSent | closed => exact ⟨s, .refl s, h, by rw [hpc]; trivial⟩

/-! ## Runs through the data and the teardown -/

/-- The transfer can be finished. -/
theorem transfer_path (hcfg : cfg.Compatible) (hzero : cfg.sender.start.toNat = 0)
    (hs : (network cfg).Reachable s) (h : Completable cfg s)
    (hentered : s.sender.pc.enteredTransfer) (hbusy : ¬ s.sender.pc.leftTransfer) :
    ∃ t, (network cfg).Path (fun _ => True) s t ∧ Completable cfg t ∧
      t.sender.pc.leftTransfer := by
  have hpast : s.sender.pc.pastEstablish := by
    cases hpc : s.sender.pc with
    | synSent | ackSent => rw [hpc] at hentered; exact hentered.elim
    | established | transfer | transferred | finSent | closed => trivial
  have hsyn : s.sender.pc ≠ .synSent := by
    intro hpc
    rw [hpc] at hpast
    exact hpast
  -- a receiver that is not there yet enters its loop first
  have hready : ∃ u, (network cfg).Path (fun _ => True) s u ∧ Hopeful cfg u ∧
      (u.Open ∨ u.receiver.pc.leftTransfer ∧ u.receiver = s.receiver) := by
    by_cases hleft : s.receiver.pc.leftTransfer
    · refine ⟨s, .refl s, ⟨hs, h.sender, hentered, fun k hk hacked => ?_⟩, .inr ⟨hleft, rfl⟩⟩
      rcases h.data k hk hacked with hack | ⟨hstays, _⟩
      · exact .inl hack
      · exact absurd hleft hstays
    · have hattends : s.Attends cfg := ⟨h.receiver, hleft, h.handshake hpast⟩
      obtain ⟨u, hpath, hsender, hframes, hopen, hreaches⟩ := hattends.path hs hsyn
      refine ⟨u, hpath.mono fun _ _ => trivial, ⟨hs.path hpath, hsender ▸ h.sender,
        hsender ▸ hentered, fun k hk hacked => ?_⟩, .inl hopen⟩
      rw [hsender] at hacked
      rcases h.data k hk hacked with ⟨j, hj, hcovers, p, hmem, hack⟩ | ⟨_, hreach⟩
      · exact .inl ⟨j, hj, hcovers, p, hframes ▸ hmem, hack⟩
      · exact .inr ⟨hopen.attends, hreaches k hreach⟩
  obtain ⟨u, hpath, hope, hplace⟩ := hready
  obtain ⟨t, hrest, hdone, hsteady, hleft⟩ := hope.exists_done hcfg hzero
  have hall := hpath.trans (hrest.mono fun _ _ => trivial)
  have hplace' : t.Open ∨ t.receiver.pc.leftTransfer ∧ t.receiver = s.receiver := by
    rcases hplace with hopen | ⟨hgone, hsame⟩
    · exact .inl (hsteady.stays hopen)
    · have hkept := hsteady.left hgone
      exact .inr ⟨hkept ▸ hgone, hkept.trans hsame⟩
  refine ⟨t, hall, ?_, hleft⟩
  exact {
    sender := hdone.running
    receiver := by
      rcases hplace' with hopen | ⟨_, hsame⟩
      · exact hopen.2
      · exact hsame ▸ h.receiver
    handshake := fun _ hwaits => by
      rcases hplace' with hopen | ⟨hgone, _⟩
      · rw [hopen.1] at hwaits
        cases hwaits
      · rw [hwaits] at hgone
        exact hgone.elim
    data := fun k hk hacked => absurd hleft ((hdone.dataInv hcfg).not_left hk hacked)
    teardown := fun hclosed => by
      rcases hplace' with hopen | ⟨_, hsame⟩
      · rw [hopen.1] at hclosed
        cases hclosed
      · have hover : s.receiver.pc.pastFinWait := by rw [← hsame, hclosed]; trivial
        exact absurd ((lifecycle_reachable hs).senderLeft hover) hbusy }

/-- A sender that has returned has seen the FIN|ACK of the receiver. -/
theorem pastFinWait_of_closed (hs : (network cfg).Reachable s) (hpc : s.sender.pc = .closed) :
    s.receiver.pc.pastFinWait := by
  refine hs.invariant (P := fun s => s.sender.pc = .closed → s.receiver.pc.pastFinWait) ?_ ?_ hpc
  · intro s hinit hclosed
    rw [show s = State.start cfg from hinit, State.start, Sender.start_eq] at hclosed
    cases hclosed
  · intro s e t hreach h hstep hclosed
    have hlifecycle := lifecycle_reachable hreach
    cases hstep with
    | sender hreceives hstep =>
      obtain ⟨_, _, _, _, hclose, _⟩ :=
        Sender.step_phase hstep hlifecycle.isn hlifecycle.senderSqn
      rcases hclose hclosed with hbefore | ⟨p, rfl, hflags⟩
      · exact h hbefore
      · exact (hlifecycle.toSender.received hreceives).of_finAck hflags
    | @receiver input c x sent hreceives hstep =>
      have hsyn : ∀ p, input = .recv (.ok p) → p.flags = rtpSyn → p.seqNum = cfg.sender.isn := by
        rintro p rfl hflags
        exact (hlifecycle.toReceiver.received hreceives).of_syn hflags
      exact (Receiver.step_phase hstep hlifecycle.receiverSqn hsyn).2.1 (h hclosed)
    | toReceiver | toSender => exact h hclosed

/-- The receiver returns after its last receive. -/
theorem return_path (cfg : Config) (hsender : s.sender.pc = .closed ∧ s.sender.fatal = false)
    (hpast : s.receiver.pc.pastFinWait) (hrunning : s.receiver.fatal = false) :
    ∃ t, (network cfg).Path (fun _ => True) s t ∧ t.Complete := by
  have hstart : (network cfg).Path (fun _ => True) s s := .refl s
  cases hpc : s.receiver.pc with
  | listen | synReceived | established | transfer | finWait =>
    rw [hpc] at hpast
    exact hpast.elim
  | finReplied =>
    have hclose := path_receiver hstart trivial .timeout
      (Receiver.step_close_timeout cfg.receiver hpc hrunning)
    exact ⟨_, hclose, hsender.1, hsender.2, rfl, hrunning⟩
  | closed => exact ⟨s, hstart, hsender.1, hsender.2, hpc, hrunning⟩

/-- The sender that waits for its FIN|ACK gets it, and both programs return. -/
theorem finSent_path (hrelease : cfg.Release) (hs : (network cfg).Reachable s)
    (h : Completable cfg s) (hpc : s.sender.pc = .finSent) :
    ∃ t, (network cfg).Path (fun _ => True) s t ∧ t.Complete := by
  by_cases hmem : s.finAck ∈ s.toSender
  · obtain ⟨t, hpath, hclosed, hnormal, hsame⟩ := close_path cfg hpc h.sender hmem
    have hpast : t.receiver.pc.pastFinWait := pastFinWait_of_closed (hs.path hpath) hclosed
    obtain ⟨u, hrest, hdone⟩ := return_path cfg ⟨hclosed, hnormal⟩ hpast (hsame ▸ h.receiver)
    exact ⟨u, hpath.trans hrest, hdone⟩
  · have hopen : s.receiver.pc ≠ .closed := by
      intro hclosed
      rcases h.teardown hclosed with hdone | hack
      · rw [hpc] at hdone
        cases hdone
      · exact hmem hack
    obtain ⟨t, hpath, hpc', hrunning, hsqn, hsame, hkept, hfin⟩ :=
      fin_path hpc h.sender (resends_of_release hrelease hs)
    have hanswers : t.Answers cfg := by
      rw [State.Answers, hsame]
      exact ⟨h.receiver, hopen, fun hwaits => hkept _ (h.handshake (by rw [hpc]; trivial) hwaits)⟩
    have hfin' : t.fin ∈ t.toReceiver := by
      rw [State.fin, hsqn]
      exact hfin
    obtain ⟨u, hanswer, hclosed, hnormal, hpast, hreceiver⟩ :=
      answered_path (hs.path hpath) hpc' hrunning hanswers hfin'
    obtain ⟨v, hrest, hdone⟩ := return_path cfg ⟨hclosed, hnormal⟩ hpast hreceiver
    exact ⟨v, (hpath.trans hanswer).trans hrest, hdone⟩

/-- The teardown can be finished. -/
theorem finish_path (hcfg : cfg.Compatible) (hrelease : cfg.Release)
    (hs : (network cfg).Reachable s) (h : Completable cfg s) (hleft : s.sender.pc.leftTransfer) :
    ∃ t, (network cfg).Path (fun _ => True) s t ∧ t.Complete := by
  cases hpc : s.sender.pc with
  | synSent | ackSent | established | transfer =>
    rw [hpc] at hleft
    exact hleft.elim
  | transferred =>
    have hstart : (network cfg).Path (fun _ => True) s s := .refl s
    have hfin := path_sender hstart trivial .run
      (Sender.step_fin_start hrelease.sender hpc h.sender)
    have hreach := hs.path hfin
    have hpast : s.sender.pc.pastEstablish := by rw [hpc]; trivial
    obtain ⟨t, hrest, hdone⟩ := finSent_path hrelease hreach {
      sender := h.sender
      receiver := h.receiver
      handshake := fun _ hwaits => List.mem_append_left _ (h.handshake hpast hwaits)
      data := fun k hk hacked => absurd (by trivial)
        ((dataInv_reachable hcfg (starts_network cfg) hreach).not_left hk hacked)
      teardown := fun hclosed => (h.teardown hclosed).imp
        (fun hdone => by rw [hpc] at hdone; cases hdone) id } rfl
    exact ⟨t, hfin.trans hrest, hdone⟩
  | finSent => exact finSent_path hrelease hs h hpc
  | closed => exact return_path cfg ⟨hpc, h.sender⟩ (pastFinWait_of_closed hs hpc) h.receiver

/-- A connection from which nothing is gone can be completed. -/
theorem complete_path (hcfg : cfg.Compatible) (hzero : cfg.sender.start.toNat = 0)
    (hrelease : cfg.Release) (hs : (network cfg).Reachable s) (h : Completable cfg s) :
    ∃ t, (network cfg).Path (fun _ => True) s t ∧ t.Complete := by
  obtain ⟨u, hpath, hu, hentered⟩ := open_path hcfg hrelease hs h
  have hmore : ∃ v, (network cfg).Path (fun _ => True) s v ∧ Completable cfg v ∧
      v.sender.pc.leftTransfer := by
    by_cases hleft : u.sender.pc.leftTransfer
    · exact ⟨u, hpath, hu, hleft⟩
    · obtain ⟨v, hrest, hv, hleft'⟩ := transfer_path hcfg hzero (hs.path hpath) hu hentered hleft
      exact ⟨v, hpath.trans hrest, hv, hleft'⟩
  obtain ⟨v, hpath', hv, hleft⟩ := hmore
  obtain ⟨t, hrest, hdone⟩ := finish_path hcfg hrelease (hs.path hpath') hv hleft
  exact ⟨t, hpath'.trans hrest, hdone⟩

/-! ## What can never come back -/

/-- A process that has exited does not return. -/
theorem not_complete_of_fatal (hfatal : s.sender.fatal = true ∨ s.receiver.fatal = true)
    (hpath : (network cfg).Path (fun _ => True) s t) : ¬ t.Complete := by
  have ht : t.sender.fatal = true ∨ t.receiver.fatal = true := by
    refine hpath.invariant (P := fun u => u.sender.fatal = true ∨ u.receiver.fatal = true) ?_ hfatal
    intro u e v h _ hstep
    cases hstep with
    | sender _ hstep =>
      rw [(Sender.move_of_step _ hstep).1] at h
      exact .inr (h.resolve_left nofun)
    | receiver _ hstep =>
      rw [(Receiver.move_of_step _ hstep).1] at h
      exact .inl (h.resolve_right nofun)
    | toReceiver | toSender => exact h
  intro ⟨_, hsender, _, hreceiver⟩
  rw [hsender, hreceiver] at ht
  exact ht.elim nofun nofun

/-- The receiver has returned, and no FIN|ACK is on its way to the sender. -/
structure Orphaned (s : State) : Prop where
  receiver : s.receiver.pc = .closed
  sender : s.sender.pc = .transferred ∨ s.sender.pc = .finSent
  toSender : InFlight s.toSender fun p =>
    p.flags = rtpAck ||| rtpFin → p.seqNum ≠ s.sender.sqn

theorem Orphaned.step (h : Orphaned s) (hstep : Step cfg s e t) : Orphaned t := by
  cases hstep with
  | sender hreceives hstep =>
    have ⟨_, hmove⟩ := Sender.move_of_step _ hstep
    cases hmove with
    | exit => exact ⟨h.receiver, h.sender, h.toSender.receives hreceives⟩
    | fin => exact ⟨h.receiver, .inr rfl, h.toSender.receives hreceives⟩
    | finRetry => exact ⟨h.receiver, h.sender, h.toSender.receives hreceives⟩
    | finAccept _ hseq hflags => exact absurd hseq (h.toSender.received hreceives hflags)
    | synRetry hpc | synAccept hpc | confirm hpc | enter hpc | transfer hpc =>
      have hsender := h.sender
      rw [hpc] at hsender
      exact hsender.elim nofun nofun
  | receiver hreceives hstep =>
    have ⟨_, hmove⟩ := Receiver.move_of_step _ hstep
    cases hmove with
    | exit =>
      refine ⟨h.receiver, h.sender, ?_⟩
      rw [List.map_nil, List.append_nil]
      exact h.toSender
    | listenTimeout hpc | listenSkip hpc | syn hpc | synRetry hpc | synAccept hpc | enter hpc
    | leave hpc | skip hpc | data hpc | finSkip hpc | fin hpc | close hpc =>
      rw [h.receiver] at hpc
      cases hpc
  | toReceiver => exact { h with }
  | toSender hchannel => exact { h with toSender := h.toSender.channel hchannel }

theorem Orphaned.dead_end (h : Orphaned s) (hpath : (network cfg).Path (fun _ => True) s t) :
    ¬ t.Complete := by
  have ht : Orphaned t :=
    hpath.invariant (P := Orphaned) (fun _ _ _ hs _ hstep => hs.step hstep) h
  intro hdone
  have hsender := ht.sender
  rw [hdone.1] at hsender
  exact hsender.elim nofun nofun

/-! ## When a connection can be completed -/

/-- Where something that the connection needs is gone, no run completes it. -/
theorem completable_of_complete (hcfg : cfg.Compatible) (hs : (network cfg).Reachable s)
    (hpath : (network cfg).Path (fun _ => True) s t) (hdone : t.Complete) :
    Completable cfg s := by
  have hleft : t.sender.pc.leftTransfer := by rw [hdone.1]; trivial
  exact {
    sender := by
      by_contra hexit
      exact not_complete_of_fatal (.inl (by simpa using hexit)) hpath hdone
    receiver := by
      by_contra hexit
      exact not_complete_of_fatal (.inr (by simpa using hexit)) hpath hdone
    handshake := fun hpast hpc => by
      by_contra hnone
      have hstranded : Stranded s := ⟨hpast, hpc, no_ack hs hnone⟩
      have ht : Stranded t :=
        hpath.invariant (P := Stranded) (fun _ _ _ hu _ hstep => hu.step hstep) hstranded
      have hreceiver := ht.receiver
      rw [hdone.2.2.1] at hreceiver
      cases hreceiver
    data := fun k hk hacked => by
      by_contra hnot
      rw [not_or] at hnot
      have hlost := lost_of_deaf hacked hnot.1 (deaf_of_far hcfg hs hnot.2)
      exact hlost.dead_end hcfg hs hk hpath hleft
    teardown := fun hclosed => by
      by_contra hnot
      rw [not_or] at hnot
      have hover : s.receiver.pc.pastFinWait := by rw [hclosed]; trivial
      have hgone := (lifecycle_reachable hs).senderLeft hover
      refine Orphaned.dead_end ⟨hclosed, ?_, no_finAck hs hnot.2⟩ hpath hdone
      cases hpc : s.sender.pc with
      | transferred => exact .inl rfl
      | finSent => exact .inr rfl
      | closed => exact absurd hpc hnot.1
      | synSent | ackSent | established | transfer =>
        rw [hpc] at hgone
        exact hgone.elim }

/-- **When a connection can still be completed.**  Let both programs run in one mode,
with windows that may differ, in selective repeat a receiver's window of at most
`2 ^ 30`.  From a reachable state of a release build both can still return normally,
with the file written, exactly when nothing that they need is gone. -/
theorem connection_completes_iff (cfg : Config) (hcfg : cfg.Compatible)
    (hisn : cfg.sender.isn = getRandomSeqnum) (hrelease : cfg.Release) {s : State}
    (hs : (network cfg).Reachable s) :
    (∃ t, (network cfg).Path (fun _ => True) s t ∧ t.Complete ∧
      t.receiver.file = some (cfg.sender.assigned.map some)) ↔ Completable cfg s := by
  have hzero : cfg.sender.start.toNat = 0 := by
    unfold SenderConfig.start
    rw [hisn]
    decide
  constructor
  · intro ⟨t, hpath, hdone, _⟩
    exact completable_of_complete hcfg hs hpath hdone
  · intro h
    obtain ⟨t, hpath, hdone⟩ := complete_path hcfg hzero hrelease hs h
    exact ⟨t, hpath, hdone, file_eq_of_closed hcfg (hs.path hpath) (.inl hdone.1)⟩

/-- From its very first state the connection can be completed. -/
theorem connection_completes_oneByte :
    ∃ t, (network (oneByte .gbn)).Path (fun _ => True) (State.start (oneByte .gbn)) t ∧
      t.Complete ∧ t.receiver.file = some ((oneByte .gbn).sender.assigned.map some) := by
  have hcfg : (oneByte .gbn).Compatible := ⟨rfl, nofun⟩
  have hs : (network (oneByte .gbn)).Reachable (State.start (oneByte .gbn)) := .init rfl
  refine (connection_completes_iff (oneByte .gbn) hcfg rfl ⟨rfl, rfl⟩ hs).mpr ?_
  exact .of_idle hcfg hs rfl rfl id fun _ => nofun

end NetLabs.Rtp
