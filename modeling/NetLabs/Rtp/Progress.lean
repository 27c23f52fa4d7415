import NetLabs.Rtp.Handshake
import NetLabs.Rtp.Transfer

/-!
# The data phase has no dead end

Both programs are started in `transfer_data` with one mode and one window size.
As long as the receiver is in its loop, three steps without loss move the
sender's window (`round`): the sender times out and sends its first outstanding
packet again, that packet arrives, and its answer arrives.  The packet falls
into the receiver's window or into the range before it, because the receiver is
at most one window ahead.

The sender repeats packets in the loop `seqnum_add(wbase, i) < sqn`, which
compares numbers and not positions on the ring.  With the starting number of
`get_random_seqnum` the numbers are the packet indices, so this loop never
stops early.
-/

namespace NetLabs.Rtp

open NetLabs.Lib

/-! ## The sender repeats its first outstanding packet -/

namespace Sender

variable {cfg : SenderConfig} {start : UInt32}

theorem transferLoop_fatal (x : Sender) : (transferLoop cfg x).1.fatal = x.fatal := by
  unfold transferLoop
  split
  · split <;> rfl
  · rfl

theorem transferRecv_fatal (x : Sender) (r : Recv) :
    (transferRecv cfg x r).1.fatal = x.fatal := by
  cases r with
  | timeout => exact transferLoop_fatal x
  | rejected p => exact transferLoop_fatal x
  | ok p =>
    rcases transferRecv_ok cfg x p with heq | ⟨_, _, heq⟩
    · rw [heq, transferLoop_fatal]
    · rw [heq, transferLoop_fatal]
      rfl

/-- With packets outstanding the head of the loop does nothing. -/
theorem transferLoop_busy {x : Sender} {o : Nat} (h : Aligned cfg start x o) (ho : 0 < o)
    (hpc : x.pc = .transfer) : transferLoop cfg x = (x, []) := by
  have hsent := h.sent_le
  have hne : x.wbase ≠ x.sqn := fun heq => by
    have := h.wbase_eq_sqn_iff.mp heq
    omega
  unfold transferLoop
  rw [if_pos (by omega), if_neg hne, ← hpc]

/-- After a timeout the first outstanding packet is sent again, when numbers
are indices. -/
theorem mem_resend_first {x : Sender} {o : Nat} (h : Aligned cfg start x o) (ho : 0 < o)
    (hzero : start.toNat = 0) :
    cfg.dataPacket (seqnumAdd start x.shift) x.shift ∈ resend cfg x (sqnDis x.wbase x.sqn) 0 := by
  have hsent := h.sent_le
  have hn := cfg.npacket_le
  obtain ⟨fuel, hfuel⟩ : ∃ fuel, o = fuel + 1 := ⟨o - 1, by omega⟩
  have hfirst : seqnumAdd x.wbase (0 : Nat) = seqnumAdd start x.shift := by
    rw [h.wbase, seqnumAdd_seqnumAdd, Int.natCast_zero, Int.add_zero]
  have hlt : seqnumAdd start x.shift < x.sqn := by
    rw [h.sqn, UInt32.lt_iff_toNat_lt, seqnumAdd_toNat, seqnumAdd_toNat, hzero]
    omega
  have hslot : x.window.getD 0 false = false := by
    have hsettled := h.settled
    unfold Settled at hsettled
    rw [List.getD_eq_getElem?_getD]
    cases hw : x.window[0]? with
    | none => rfl
    | some b =>
      cases b with
      | false => rfl
      | true => exact absurd hw hsettled
  have hskip : ¬ (cfg.mode = .sr ∧ x.window.getD 0 false = true) := by
    rw [hslot]
    exact fun hskip => Bool.false_ne_true hskip.2
  rw [h.sqnDis_eq, hfuel, resend, hfirst, if_pos hlt, if_neg hskip, Nat.add_zero]
  exact List.mem_cons_self

end Sender

/-! ## The receiver answers it -/

namespace Receiver

variable {cfg : ReceiverConfig} {start : UInt32} {payload : Nat → List UInt8} {n : Nat}

theorem recvData_fatal (x : Receiver) (p : Packet) : (recvData cfg x p).1.fatal = x.fatal := by
  unfold recvData
  split
  · unfold recvSr
    split
    · rfl
    · split <;> rfl
  · unfold recvGbn
    split <;> rfl

/-- A packet that is not ahead of the receiver's window, and at most one window
behind it, is answered by the ACK of a stored packet: of itself in selective
repeat, of the last one accepted in go-back-N. -/
theorem recvData_answers {x : Receiver} {p : Packet} {k : Nat}
    (hw : cfg.wsize ≤ 2 ^ 30) (hB : Blocked payloadMax payload n)
    (hn : n ≤ 1436) (h : Stores cfg payload n x) (hnum : Numbered cfg start x) (hk : k < n)
    (hseq : p.seqNum = seqnumAdd start k) (hpayload : p.payload = payload k)
    (hle : k ≤ x.shift) (hwindow : cfg.mode = .sr → x.shift ≤ k + cfg.wsize) :
    ∃ j, (recvData cfg x p).2 = [Sender.ackFor cfg.mode start j] ∧ k ≤ j ∧
      (j = k ∨ cfg.mode = .gbn) ∧
      j ∈ marked (recvData cfg x p).1.shift (recvData cfg x p).1.window := by
  have hstows := recvData_stows (fun _ => hw) hB hn h hnum hk hseq hpayload
  have hnum' := hstows.numbered
  have hshift := h.shift_le
  unfold Numbered at hnum hnum'
  cases hmode : cfg.mode with
  | sr =>
    rw [hmode] at hnum
    have hback := isIn_before start cfg.wsize_pos hw (by omega : x.shift ≤ 1436)
      (by omega : k < 1436)
    have hahead := isIn_window start cfg.wsize_pos hw (by omega : x.shift ≤ 1436)
      (by omega : k < 1436)
    have hanswer : (recvSr cfg x p).2 = [controlPacket p.seqNum rtpAck] := by
      unfold recvSr
      rw [hnum, hseq]
      split
      · rfl
      · rename_i hnot
        have hin : x.shift ≤ k ∧ k < x.shift + cfg.wsize := by
          have hpos := cfg.wsize_pos
          have hgap := hwindow hmode
          have hnext : ¬ (x.shift ≤ cfg.wsize + k ∧ k < x.shift) := fun hlt => hnot (hback.mpr hlt)
          omega
        rw [if_pos (hahead.mpr hin)]
    have hrecv : recvData cfg x p = recvSr cfg x p := by
      unfold recvData
      rw [hmode]
    refine ⟨k, ?_, Nat.le_refl _, Or.inl rfl, ?_⟩
    · rw [hrecv, hanswer, hseq]
      rfl
    · have hack := hstows.acks (controlPacket p.seqNum rtpAck)
        (by rw [hrecv, hanswer]; exact List.mem_singleton_self _)
      rw [hmode] at hack
      obtain ⟨j, hj, hjseq⟩ := hack
      have hjn : j < n := hstows.stores.stored_le hj
      have heq : k = j := seqnumAdd_inj (by omega) (by omega) (hseq.symm.trans hjseq)
      exact heq ▸ hj
  | gbn =>
    rw [hmode] at hnum hnum'
    have hrecv : recvData cfg x p = recvGbn x p := by
      unfold recvData
      rw [hmode]
    have hafter : k < (recvGbn x p).1.shift := by
      unfold recvGbn
      split
      · have : (acceptGbn x p).shift = x.shift + 1 := rfl
        simp only [this]
        omega
      · rename_i hne
        rcases Nat.lt_or_eq_of_le hle with hlt | rfl
        · exact hlt
        · exact absurd (hseq.trans hnum.symm) hne
    rw [hrecv] at hnum' ⊢
    refine ⟨(recvGbn x p).1.shift - 1, ?_, by omega, Or.inr rfl, Or.inl (by omega)⟩
    have hcontrol : (recvGbn x p).2 = [controlPacket (recvGbn x p).1.sqn rtpAck] := rfl
    have hindex : (recvGbn x p).1.shift - 1 + (Mode.gbn.toNat ^^^ 1) = (recvGbn x p).1.shift := by
      change (recvGbn x p).1.shift - 1 + 1 = (recvGbn x p).1.shift
      omega
    rw [hcontrol, hnum', Sender.ackFor, hindex]

end Receiver

/-! ## Rounds -/

/-- Both programs at the entry of `transfer_data`. -/
def State.established (cfg : Config) : State where
  sender := { pc := .established, fatal := false, tries := 0, sqn := cfg.sender.start,
              wbase := cfg.sender.isn, shift := 0, window := [] }
  receiver := { Receiver.start with pc := .established, sqn := cfg.sender.start }
  toReceiver := []
  toSender := []

/-- The two programs from the entry of `transfer_data` on. -/
abbrev dataPhase (cfg : Config) : System State Event :=
  networkFrom cfg (· = State.established cfg)

/-- The steps of a continuation without loss: nothing is lost or garbled, no
process exits, and the receiver does not time out. -/
def LossFree : Event → Prop
  | .channel .lose | .channel .garble => False
  | .sender .exit | .receiver .exit => False
  | .receiver (.recv .timeout) => False
  | _ => True

/-- Same mode, same window size, and the starting number of
`get_random_seqnum`. -/
structure Config.Matched (cfg : Config) : Prop where
  isn : cfg.sender.isn = getRandomSeqnum
  mode : cfg.sender.mode = cfg.receiver.mode
  wsize : cfg.sender.wsize = cfg.receiver.wsize
  wsize_le : cfg.receiver.wsize ≤ 2 ^ 30

variable {cfg : Config} {s : State}

theorem Config.Matched.compatible (h : cfg.Matched) : cfg.Compatible :=
  ⟨h.mode, fun _ => h.wsize_le⟩

theorem Config.Matched.start_toNat (h : cfg.Matched) : cfg.sender.start.toNat = 0 := by
  unfold SenderConfig.start
  rw [h.isn]
  decide

theorem starts_dataPhase (cfg : Config) : cfg.Starts (· = State.established cfg) := by
  rintro s rfl
  have hlifecycle : Lifecycle cfg (State.established cfg) := {
    isn := nofun
    senderSqn := fun _ => rfl
    receiverSqn := fun _ => rfl
    accepted := fun _ => nofun
    senderLeft := False.elim
    receiverLeft := nofun
    written := False.elim
    toReceiver := .nil
    toSender := .nil }
  refine ⟨?_, rfl, rfl, rfl⟩
  exact {
    lifecycle := hlifecycle
    sender := .of_not_entered id rfl rfl
    receiver := .of_not_entered id rfl rfl
    stored_lt := Set.empty_subset _
    data := .nil
    acks := .nil }

/-- A reachable state in which the transfer can go on. -/
structure Live (cfg : Config) (s : State) : Prop where
  reachable : (dataPhase cfg).Reachable s
  receiver : s.receiver.pc = .transfer
  senderRunning : s.sender.fatal = false
  receiverRunning : s.receiver.fatal = false

/-- A step of the sender keeps the transfer going. -/
theorem Live.sender_step (h : Live cfg s) {input : Input} {c : List Frame} {x : Sender}
    {sent : List Packet} (hfree : LossFree (.sender input))
    (hreceives : Receives s.toSender input c)
    (hstep : s.sender.step cfg.sender input = some (x, sent)) (hrunning : x.fatal = false) :
    ∃ t, (dataPhase cfg).Path LossFree s t ∧ Live cfg t ∧ t.sender = x ∧
      t.toReceiver = s.toReceiver ++ sent.map .intact := by
  have hstart : (dataPhase cfg).Path LossFree s s := .refl s
  have hpath := path_sender hstart hfree hreceives hstep
  exact ⟨_, hpath, ⟨h.reachable.path hpath, h.receiver, hrunning, h.receiverRunning⟩, rfl, rfl⟩

/-- A step of the receiver that stays in the loop keeps the transfer going. -/
theorem Live.receiver_step (h : Live cfg s) {input : Input} {c : List Frame} {x : Receiver}
    {sent : List Packet} (hfree : LossFree (.receiver input))
    (hreceives : Receives s.toReceiver input c)
    (hstep : s.receiver.step cfg.receiver input = some (x, sent)) (hpc : x.pc = .transfer)
    (hrunning : x.fatal = false) :
    ∃ t, (dataPhase cfg).Path LossFree s t ∧ Live cfg t ∧ t.sender = s.sender ∧
      t.receiver = x ∧ t.toSender = s.toSender ++ sent.map .intact := by
  have hstart : (dataPhase cfg).Path LossFree s s := .refl s
  have hpath := path_receiver hstart hfree hreceives hstep
  exact ⟨_, hpath, ⟨h.reachable.path hpath, hpc, h.senderRunning, hrunning⟩, rfl, rfl, rfl⟩

theorem Live.aligned (hcfg : cfg.Matched) (h : Live cfg s) (hpc : s.sender.pc = .transfer) :
    s.sender.Aligned cfg.sender cfg.sender.start (sqnDis s.sender.wbase s.sender.sqn) ∧
      0 < sqnDis s.sender.wbase s.sender.sqn ∧
      s.sender.sentCount = s.sender.shift + sqnDis s.sender.wbase s.sender.sqn := by
  have hdata := dataInv_reachable hcfg.compatible (starts_dataPhase cfg) h.reachable
  have hentered : s.sender.pc.enteredTransfer := by simp [hpc, SenderPc.enteredTransfer]
  exact ⟨hdata.sender.aligned hentered, hdata.sender.busy hpc,
    Sender.sentCount_of_entered hentered⟩

/-- The sender times out and repeats its first outstanding packet. -/
theorem Live.resend_path (hcfg : cfg.Matched) (h : Live cfg s) (hpc : s.sender.pc = .transfer) :
    ∃ t, (dataPhase cfg).Path LossFree s t ∧ Live cfg t ∧ t.sender = s.sender ∧
      .intact (cfg.sender.dataPacket (seqnumAdd cfg.sender.start s.sender.shift) s.sender.shift) ∈
        t.toReceiver := by
  obtain ⟨haligned, ho, _⟩ := h.aligned hcfg hpc
  have hresent : Sender.transferRecv cfg.sender s.sender .timeout =
      (s.sender, Sender.resend cfg.sender s.sender (sqnDis s.sender.wbase s.sender.sqn) 0) := by
    simp only [Sender.transferRecv, Sender.transferLoop_busy haligned ho hpc, List.append_nil]
  have hstep := Sender.step_transfer cfg.sender hpc h.senderRunning .timeout
  rw [hresent] at hstep
  obtain ⟨t, hpath, hlive, hsender, hframes⟩ :=
    h.sender_step (by trivial) .timeout hstep h.senderRunning
  have hmem := Sender.mem_resend_first haligned ho hcfg.start_toNat
  refine ⟨t, hpath, hlive, hsender, ?_⟩
  rw [hframes]
  exact List.mem_append_right _ (List.mem_map_of_mem hmem)

/-- The repeated packet arrives and is answered. -/
theorem Live.answer_path (hcfg : cfg.Matched) (h : Live cfg s) (hpc : s.sender.pc = .transfer)
    (hmem : .intact (cfg.sender.dataPacket (seqnumAdd cfg.sender.start s.sender.shift)
      s.sender.shift) ∈ s.toReceiver) :
    ∃ t j, (dataPhase cfg).Path LossFree s t ∧ Live cfg t ∧ t.sender = s.sender ∧
      .intact (Sender.ackFor cfg.sender.mode cfg.sender.start j) ∈ t.toSender ∧
      s.sender.shift ≤ j ∧ j < s.sender.sentCount ∧
      (j = s.sender.shift ∨ cfg.sender.mode = .gbn) := by
  obtain ⟨haligned, ho, hcount⟩ := h.aligned hcfg hpc
  have hdata := dataInv_reachable hcfg.compatible (starts_dataPhase cfg) h.reachable
  have hn := cfg.sender.npacket_le
  have hsent := haligned.sent_le
  have hwindow := haligned.outstanding_le
  have hentered : s.receiver.pc.enteredTransfer := by simp [h.receiver, ReceiverPc.enteredTransfer]
  obtain ⟨hlower, hupper⟩ :=
    windows_ordered hcfg.compatible (starts_dataPhase cfg) h.reachable
  unfold Sender.outstanding at hupper
  generalize hp : cfg.sender.dataPacket (seqnumAdd cfg.sender.start s.sender.shift)
    s.sender.shift = p at hmem
  have hflags : p.flags = 0 := by rw [← hp]; rfl
  obtain ⟨j, hanswer, hle, hmode, hstored⟩ := Receiver.recvData_answers (p := p)
    (k := s.sender.shift) hcfg.wsize_le cfg.sender.blocked_payload hn
    (hdata.receiver.stores hentered) (hdata.receiver.numbered h.receiver) (by omega)
    (by rw [← hp]; rfl) (by rw [← hp]; rfl) hlower (fun _ => by rw [← hcfg.wsize]; omega)
  obtain ⟨t, hpath, hlive, hsender, hreceiver, hframes⟩ := h.receiver_step (by trivial) (.frame hmem)
    (Receiver.step_transfer_data cfg.receiver h.receiver h.receiverRunning hflags)
    ((Receiver.recvData_phase _ _ _).1.trans h.receiver)
    ((Receiver.recvData_fatal _ _).trans h.receiverRunning)
  have hafter := dataInv_reachable hcfg.compatible (starts_dataPhase cfg) hlive.reachable
  refine ⟨t, j, hpath, hlive, hsender, ?_, hle, ?_, hcfg.mode ▸ hmode⟩
  · rw [hframes, hanswer, hcfg.mode]
    exact List.mem_append_right _ (List.mem_singleton_self _)
  · rw [← hsender]
    refine hafter.stored_lt ?_
    rw [hafter.receiver.stored_eq, hreceiver]
    exact hstored

/-- The answer arrives and moves the sender's window. -/
theorem Live.ack_path (hcfg : cfg.Matched) (h : Live cfg s) (hpc : s.sender.pc = .transfer)
    {j : Nat} (hmem : .intact (Sender.ackFor cfg.sender.mode cfg.sender.start j) ∈ s.toSender)
    (hle : s.sender.shift ≤ j) (hlt : j < s.sender.sentCount)
    (hmode : j = s.sender.shift ∨ cfg.sender.mode = .gbn) :
    ∃ t, (dataPhase cfg).Path LossFree s t ∧ Live cfg t ∧ s.sender.shift < t.sender.shift := by
  obtain ⟨haligned, ho, hcount⟩ := h.aligned hcfg hpc
  obtain ⟨d, rfl⟩ : ∃ d, j = s.sender.shift + d := ⟨j - s.sender.shift, by omega⟩
  have hmoves := Sender.transferRecv_moves haligned (d := d) (by omega)
    (hmode.imp (by omega) id)
  obtain ⟨t, hpath, hlive, hsender, _⟩ := h.sender_step (by trivial) (.frame hmem)
    (Sender.step_transfer cfg.sender hpc h.senderRunning _)
    ((Sender.transferRecv_fatal _ _).trans h.senderRunning)
  exact ⟨t, hpath, hlive, hsender ▸ hmoves⟩

/-- One retransmission, its arrival, and the arrival of the answer move the
sender's window. -/
theorem Live.round (hcfg : cfg.Matched) (h : Live cfg s) (hpc : s.sender.pc = .transfer) :
    ∃ t, (dataPhase cfg).Path LossFree s t ∧ Live cfg t ∧ s.sender.shift < t.sender.shift := by
  obtain ⟨t₁, hpath₁, hlive₁, hsender₁, hmem₁⟩ := h.resend_path hcfg hpc
  rw [← hsender₁] at hpc hmem₁ ⊢
  obtain ⟨t₂, j, hpath₂, hlive₂, hsender₂, hmem₂, hle, hlt, hmode⟩ :=
    hlive₁.answer_path hcfg hpc hmem₁
  rw [← hsender₂] at hpc hle hlt hmode ⊢
  obtain ⟨t₃, hpath₃, hlive₃, hmoves⟩ := hlive₂.ack_path hcfg hpc hmem₂ hle hlt hmode
  exact ⟨t₃, (hpath₁.trans hpath₂).trans hpath₃, hlive₃, hmoves⟩

/-- The first batch, when the sender has not started yet. -/
theorem Live.enter_path (h : Live cfg s) (hpc : s.sender.pc = .established) :
    ∃ t, (dataPhase cfg).Path LossFree s t ∧ Live cfg t ∧ t.sender.pc.enteredTransfer := by
  obtain ⟨t, hpath, hlive, hsender, _⟩ := h.sender_step (by trivial) .run
    (Sender.step_enter cfg.sender hpc h.senderRunning)
    ((Sender.transferLoop_fatal _).trans h.senderRunning)
  refine ⟨t, hpath, hlive, ?_⟩
  obtain ⟨hphase, _⟩ := Sender.transferLoop_phase cfg.sender
    { s.sender with
      wbase := s.sender.sqn, shift := 0, window := List.replicate cfg.sender.wsize false }
  rw [hsender, Sender.transferStart]
  rcases hphase with hphase | hphase <;> rw [hphase] <;> trivial

/-- Rounds follow each other until the sender leaves its loop. -/
theorem Live.exists_done (hcfg : cfg.Matched) (h : Live cfg s)
    (hentered : s.sender.pc.enteredTransfer) :
    ∃ t, (dataPhase cfg).Path LossFree s t ∧ Live cfg t ∧ t.sender.pc.leftTransfer := by
  have hprogress : ∀ s, Live cfg s ∧ s.sender.pc.enteredTransfer → ¬ s.sender.pc.leftTransfer →
      ∃ t, (dataPhase cfg).Path LossFree s t ∧ (Live cfg t ∧ t.sender.pc.enteredTransfer) ∧
        cfg.sender.npacket - t.sender.shift < cfg.sender.npacket - s.sender.shift := by
    intro s ⟨hlive, hentered⟩ hbusy
    have hpc : s.sender.pc = .transfer := by
      cases hpc : s.sender.pc <;>
        simp_all [SenderPc.enteredTransfer, SenderPc.leftTransfer]
    obtain ⟨t, hpath, hlive', hmoves⟩ := hlive.round hcfg hpc
    obtain ⟨haligned, ho, _⟩ := hlive.aligned hcfg hpc
    have hsent := haligned.sent_le
    refine ⟨t, hpath, ⟨hlive', ?_⟩, by omega⟩
    -- a positive `shift` means that the transfer has been entered
    by_contra hidle
    have hinv := dataInv_reachable hcfg.compatible (starts_dataPhase cfg) hlive'.reachable
    have hzero := (hinv.sender.idle hidle).1
    omega
  obtain ⟨t, hpath, ⟨hlive, _⟩, hleft⟩ := System.exists_path_of_measure _ hprogress ⟨h, hentered⟩
  exact ⟨t, hpath, hlive, hleft⟩

/-! ## Runs without an exit -/

/-- No process exits because a system call fails. -/
def ExitFree : Event → Prop
  | .sender .exit | .receiver .exit => False
  | _ => True

/-- Until it is in `break_connection` the sender can only stop by an exit. -/
theorem Sender.step_running {cfg : SenderConfig} {x x' : Sender} {input : Input}
    {sent : List Packet} (h : Sender.step cfg x input = some (x', sent))
    (hpast : x.pc.pastEstablish) (hinput : input ≠ .exit) :
    x'.fatal = false ∨ x'.pc.leftTransfer := by
  have ⟨hrunning, hmove⟩ := Sender.move_of_step cfg h
  cases hmove with
  | exit => exact absurd rfl hinput
  | synRetry hpc | synAccept hpc | confirm hpc => simp [hpc, SenderPc.pastEstablish] at hpast
  | enter hpc => exact .inl ((Sender.transferLoop_fatal _).trans hrunning)
  | transfer hpc => exact .inl ((Sender.transferRecv_fatal _ _).trans hrunning)
  | fin hpc => exact .inr trivial
  | finRetry hpc => exact .inr (by simp [hpc, SenderPc.leftTransfer])
  | finAccept hpc => exact .inr trivial

/-- In its loop the receiver can only stop by an exit. -/
theorem Receiver.step_running {cfg : ReceiverConfig} {x x' : Receiver} {input : Input}
    {sent : List Packet} (h : Receiver.step cfg x input = some (x', sent))
    (hinput : input ≠ .exit) (hpc' : x'.pc = .transfer) : x'.fatal = false := by
  have ⟨hrunning, hmove⟩ := Receiver.move_of_step cfg h
  cases hmove with
  | exit => exact absurd rfl hinput
  | enter hpc => exact hrunning
  | skip hpc => exact hrunning
  | data hpc => exact (Receiver.recvData_fatal _ _).trans hrunning
  | listenTimeout hpc | listenSkip hpc | finSkip hpc | synRetry hpc => simp [hpc] at hpc'
  | syn | synAccept | leave | fin | close => cases hpc'

/-- The sender is still running unless it has left its loop, and so is the
receiver while it is in its loop. -/
structure Running (s : State) : Prop where
  past : s.sender.pc.pastEstablish
  sender : s.sender.fatal = false ∨ s.sender.pc.leftTransfer
  receiver : s.receiver.pc = .transfer → s.receiver.fatal = false

theorem Running.step {t : State} {e : Event} (h : Running s) (hfree : ExitFree e)
    (hstep : Step cfg s e t) : Running t := by
  cases hstep with
  | @sender input _ _ _ _ hstep =>
    have hinput : input ≠ .exit := by
      rintro rfl
      exact hfree
    exact {
      past := (Sender.step_pastEstablish hstep h.past).1
      sender := Sender.step_running hstep h.past hinput
      receiver := h.receiver }
  | @receiver input _ _ _ _ hstep =>
    have hinput : input ≠ .exit := by
      rintro rfl
      exact hfree
    exact { h with receiver := Receiver.step_running hstep hinput }
  | toReceiver | toSender => exact { h with }

theorem running_of_path (hrun : (dataPhase cfg).Path ExitFree (State.established cfg) s) :
    Running s := by
  have hstart : Running (State.established cfg) := ⟨trivial, .inl rfl, fun _ => rfl⟩
  exact hrun.invariant (fun _ _ _ h hfree hstep => h.step hfree hstep) hstart

/-- The data phase has no dead end.  For either mode, any file and any window
size up to `2 ^ 30` that both sides share: from every state that a run reaches
while the receiver is still in its loop, some continuation without loss brings
the sender out of its loop with everything acknowledged, and the receiver has
stored every packet, its payload at its place in the file buffer. -/
theorem data_phase_completes (cfg : Config) (hisn : cfg.sender.isn = getRandomSeqnum)
    (hmode : cfg.sender.mode = cfg.receiver.mode) (hwsize : cfg.sender.wsize = cfg.receiver.wsize)
    (hwsize_le : cfg.receiver.wsize ≤ 2 ^ 30)
    (hrun : (dataPhase cfg).Path ExitFree (State.established cfg) s)
    (hreceiver : s.receiver.pc = .transfer) :
    ∃ t, (dataPhase cfg).Path LossFree s t ∧ t.sender.pc.leftTransfer ∧
      t.sender.shift = cfg.sender.npacket ∧
      t.receiver.stored = Set.Iio cfg.sender.npacket ∧
      HoldsBlocks payloadMax cfg.sender.payload t.receiver.buf (Set.Iio cfg.sender.npacket) := by
  have hcfg : cfg.Matched := ⟨hisn, hmode, hwsize, hwsize_le⟩
  have hs : (dataPhase cfg).Reachable s := System.Reachable.path (.init rfl) hrun
  have hrunning := running_of_path hrun
  suffices hdone : ∃ t, (dataPhase cfg).Path LossFree s t ∧ (dataPhase cfg).Reachable t ∧
      t.sender.pc.leftTransfer by
    have ⟨t, hpath, hreach, hleft⟩ := hdone
    have hinv := dataInv_reachable hcfg.compatible (starts_dataPhase cfg) hreach
    have hstored := stored_all hcfg.compatible (starts_dataPhase cfg) hreach hleft
    have hholds := stored_holds hcfg.compatible (starts_dataPhase cfg) hreach
    rw [hstored] at hholds
    exact ⟨t, hpath, hleft, (hinv.sender.finished hleft).2, hstored, hholds⟩
  rcases hrunning.sender with hsender | hleft
  · have hlive : Live cfg s := ⟨hs, hreceiver, hsender, hrunning.receiver hreceiver⟩
    have hentered : ∃ t, (dataPhase cfg).Path LossFree s t ∧ Live cfg t ∧
        t.sender.pc.enteredTransfer := by
      have hpast := hrunning.past
      cases hpc : s.sender.pc with
      | synSent | ackSent =>
        rw [hpc] at hpast
        exact hpast.elim
      | established => exact hlive.enter_path hpc
      | transfer | transferred | finSent | closed =>
        exact ⟨s, .refl s, hlive, by rw [hpc]; trivial⟩
    have ⟨t, hpath, hlive', hpc⟩ := hentered
    have ⟨u, hpath', hlive'', hleft⟩ := hlive'.exists_done hcfg hpc
    exact ⟨u, hpath.trans hpath', hlive''.reachable, hleft⟩
  · -- the sender is through already
    exact ⟨s, .refl s, hs, hleft⟩

/-- The state after the receiver has entered its loop. -/
theorem data_phase_completes_oneByte :
    ∃ s, (dataPhase (oneByte .sr)).Path ExitFree (State.established (oneByte .sr)) s ∧
      s.receiver.pc = .transfer ∧
      ∃ t, (dataPhase (oneByte .sr)).Path LossFree s t ∧ t.sender.pc.leftTransfer ∧
        t.sender.shift = (oneByte .sr).sender.npacket ∧
        t.receiver.stored = Set.Iio (oneByte .sr).sender.npacket ∧
        HoldsBlocks payloadMax (oneByte .sr).sender.payload t.receiver.buf
          (Set.Iio (oneByte .sr).sender.npacket) := by
  have hstart : (dataPhase (oneByte .sr)).Path ExitFree (State.established (oneByte .sr))
      (State.established (oneByte .sr)) := .refl _
  have hrun := path_receiver hstart (by trivial) .run (Receiver.step_enter _ rfl rfl)
  exact ⟨_, hrun, rfl, data_phase_completes (oneByte .sr) rfl rfl rfl (by decide) hrun rfl⟩

end NetLabs.Rtp
