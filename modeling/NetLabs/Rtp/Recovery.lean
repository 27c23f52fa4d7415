import NetLabs.Rtp.Closing
import NetLabs.Rtp.Progress

/-!
# Which transfers can still be finished

The sender leaves `transfer_data` when every packet is acknowledged, and it
never gives a packet up.  The receiver answers a data packet only while it is
in its loop, and in selective repeat only as long as the packet is at most one
window behind.

* `State.HasAck`: an ACK in flight covers the packet.
* `State.Serves`: the receiver answers the packet when it gets it.
* `Lost` is the invariant of the runs in which a packet is never acknowledged.
* `transfer_completes_iff`: from a reachable state in which the sender is in its
  loop, the sender can still leave it exactly when every packet that is not yet
  acknowledged has one or the other.  Both programs run in one mode, and in
  selective repeat the receiver's window is at most `2 ^ 30`
  (`Config.Compatible`); the two windows need not be equal.
-/

namespace NetLabs.Rtp

open NetLabs.Lib

/-! ## ACKs on the way and packets that are answered -/

/-- The number that the sender reads off this ACK is the one of packet `j`. -/
def AckOf (cfg : SenderConfig) (j : Nat) (p : Packet) : Prop :=
  p.flags = rtpAck ∧ Sender.ackNumber cfg.mode p = seqnumAdd cfg.start j

/-- An ACK on its way to the sender covers packet `k`. -/
def State.HasAck (cfg : Config) (s : State) (k : Nat) : Prop :=
  ∃ j < cfg.sender.npacket, k ∈ Sender.covers cfg.sender.mode j ∧
    ∃ p, .intact p ∈ s.toSender ∧ AckOf cfg.sender j p

/-- In selective repeat a packet that is more than one window behind is not
answered.  Go-back-N answers every packet. -/
def Receiver.Reaches (cfg : ReceiverConfig) (x : Receiver) (k : Nat) : Prop :=
  cfg.mode = .sr → x.shift ≤ k + cfg.wsize

/-- The receiver is in its loop or will get there. -/
structure State.Attends (cfg : Config) (s : State) : Prop where
  running : s.receiver.fatal = false
  stays : ¬ s.receiver.pc.leftTransfer
  ack : s.receiver.pc = .synReceived →
    .intact (controlPacket cfg.sender.start rtpAck) ∈ s.toReceiver

/-- The receiver gets to its loop and answers packet `k` there. -/
structure State.Serves (cfg : Config) (s : State) (k : Nat) : Prop where
  attends : s.Attends cfg
  reaches : s.receiver.Reaches cfg.receiver k

/-- The receiver is in its loop. -/
def State.Open (s : State) : Prop := s.receiver.pc = .transfer ∧ s.receiver.fatal = false

theorem State.Open.attends {cfg : Config} {s : State} (h : s.Open) : s.Attends cfg := by
  refine ⟨h.2, by rw [h.1]; exact id, fun hwaits => ?_⟩
  rw [h.1] at hwaits
  cases hwaits

namespace Sender

variable {cfg : SenderConfig} {start : UInt32}

/-- The ACK of an outstanding packet is taken, whatever else the packet carries. -/
theorem transferRecv_of_ack {x : Sender} {o d : Nat} {p : Packet} (h : Aligned cfg start x o)
    (hd : d < o) (hflags : p.flags = rtpAck)
    (hnum : ackNumber cfg.mode p = seqnumAdd start (x.shift + d : Nat)) :
    (d = 0 ∨ cfg.mode = .gbn → x.shift < (transferRecv cfg x (.ok p)).1.shift) ∧
      marked (transferRecv cfg x (.ok p)).1.shift (transferRecv cfg x (.ok p)).1.window =
        marked x.shift x.window ∪ covers cfg.mode (x.shift + d) := by
  have ho := h.outstanding_lt
  have hdis : sqnDis x.wbase (seqnumAdd start (x.shift + d : Nat)) = d := by
    rw [h.wbase, sqnDis_index _ _ (by omega) (by omega)]
    omega
  have hin : seqnumIsIn (seqnumAdd start (x.shift + d : Nat)) x.wbase x.sqn = true := by
    rw [h.wbase, h.sqn, seqnumIsIn_index (by omega) ho (by omega) (by omega)]
    omega
  have htaken : transferRecv cfg x (.ok p) =
      transferLoop cfg (slid cfg x (seqnumAdd start (x.shift + d : Nat))) := by
    unfold ackNumber at hnum
    simp only [transferRecv, hnum, hin]
    simp [hflags, slid]
  obtain ⟨mov, _, hshift, hpos, haligned, hmarked⟩ := slid_aligned h hd hdis
  obtain ⟨_, _, hshift', hwindow'⟩ := transferLoop_advance haligned
  rw [htaken, hshift', hwindow', hmarked]
  refine ⟨fun hfirst => ?_, rfl⟩
  have hmov := hpos hfirst
  omega

theorem WF.shift_le_of_not_acked {x : Sender} (h : WF cfg start x) {k : Nat} (hk : k ∉ x.acked) :
    x.shift ≤ k := by
  rw [h.acked_eq] at hk
  by_contra hlt
  exact hk (Iio_subset_marked _ _ (Nat.not_le.mp hlt))

end Sender

namespace Receiver

variable {cfg : ReceiverConfig} {start : UInt32} {payload : Nat → List UInt8} {n : Nat}

/-- Go-back-N answers every packet with the ACK of the last one that it has. -/
theorem recvGbn_answers {x : Receiver} {p : Packet} {k : Nat}
    (hnum : x.sqn = seqnumAdd start x.shift)
    (hseq : p.seqNum = seqnumAdd start k) (hle : k ≤ x.shift) :
    ∃ j, (recvGbn x p).2 = [Sender.ackFor .gbn start j] ∧ k ≤ j ∧ j < (recvGbn x p).1.shift := by
  have hanswer : ∀ m : Nat, 0 < m →
      controlPacket (seqnumAdd start m) rtpAck = Sender.ackFor .gbn start (m - 1) := by
    intro m hm
    have hindex : m - 1 + (Mode.gbn.toNat ^^^ 1) = m := by
      change m - 1 + 1 = m
      omega
    rw [Sender.ackFor, hindex]
  by_cases hnext : p.seqNum = x.sqn
  · have hrecv : recvGbn x p = (acceptGbn x p, [controlPacket (acceptGbn x p).sqn rtpAck]) := by
      simp only [recvGbn, if_pos hnext]
    have hsqn : (acceptGbn x p).sqn = seqnumAdd start (x.shift + 1 : Nat) := by
      simp only [acceptGbn, hnum, seqnumAdd_seqnumAdd]
      norm_cast
    rw [hrecv, hsqn, hanswer _ (Nat.succ_pos _)]
    exact ⟨x.shift, rfl, hle, Nat.lt_succ_self _⟩
  · have hlt : k < x.shift := by
      rcases Nat.lt_or_eq_of_le hle with hlt | rfl
      · exact hlt
      · exact absurd (hseq.trans hnum.symm) hnext
    have hrecv : recvGbn x p = (x, [controlPacket x.sqn rtpAck]) := by
      simp only [recvGbn, if_neg hnext]
    rw [hrecv, hnum, hanswer _ (by omega)]
    exact ⟨x.shift - 1, rfl, by omega, show x.shift - 1 < x.shift by omega⟩

/-- A packet that is not ahead of the window and that the receiver reaches is
answered, and the receiver still reaches it and everything after it. -/
theorem recvData_serves {x : Receiver} {p : Packet} {k : Nat}
    (hw : cfg.mode = .sr → cfg.wsize ≤ 2 ^ 30) (hB : Blocked payloadMax payload n)
    (hn : n ≤ 1436) (h : Stores cfg payload n x) (hnum : Numbered cfg start x) (hk : k < n)
    (hseq : p.seqNum = seqnumAdd start k) (hpayload : p.payload = payload k)
    (hle : k ≤ x.shift) (hreaches : x.Reaches cfg k) :
    (∃ j < n, (recvData cfg x p).2 = [Sender.ackFor cfg.mode start j] ∧
      k ∈ Sender.covers cfg.mode j) ∧ (recvData cfg x p).1.Reaches cfg k := by
  have hstows := recvData_stows hw hB hn h hnum hk hseq hpayload
  constructor
  · cases hmode : cfg.mode with
    | sr =>
      obtain ⟨j, hsent, hkj, heq, hstored⟩ := recvData_answers (hw hmode) hB hn h hnum hk hseq
        hpayload hle hreaches
      refine ⟨j, hstows.stores.stored_le hstored, by rw [hsent, hmode], ?_⟩
      rcases heq with rfl | hgbn
      · exact Set.mem_singleton j
      · rw [hmode] at hgbn
        cases hgbn
    | gbn =>
      have hrecv : recvData cfg x p = recvGbn x p := by
        unfold recvData
        rw [hmode]
      unfold Numbered at hnum
      rw [hmode] at hnum
      obtain ⟨j, hsent, hkj, hlt⟩ := recvGbn_answers hnum hseq hle
      have hshift := hstows.stores.shift_le
      rw [hrecv] at hshift ⊢
      exact ⟨j, by omega, hsent, show k < j + 1 by omega⟩
  · intro hmode
    have hwindow : marked x.shift x.window ⊆ Set.Iio (x.shift + cfg.wsize) := by
      intro i hi
      rcases mem_marked.mp hi with hlt | ⟨hge, hslot⟩
      · exact Nat.lt_of_lt_of_le hlt (Nat.le_add_right _ _)
      · have hlen := (List.getElem?_eq_some_iff.mp hslot).1
        rw [h.length] at hlen
        exact show i < x.shift + cfg.wsize by omega
    have hkept : x.shift < k + 1 → (recvData cfg x p).1.shift ≤ x.shift + cfg.wsize := by
      intro hlast
      have hpos := cfg.wsize_pos
      have hbound : marked (recvData cfg x p).1.shift (recvData cfg x p).1.window ⊆
          Set.Iio (x.shift + cfg.wsize) := by
        rcases hstows.stored with hsame | hset
        · rw [hsame]
          exact hwindow
        · rw [hset]
          exact Set.insert_subset (show k < x.shift + cfg.wsize by omega) hwindow
      exact base_le_of_subset hbound
    rcases Nat.lt_or_ge k x.shift with hlt | hge
    · have hsame : marked (recvData cfg x p).1.shift (recvData cfg x p).1.window ⊆
          marked x.shift x.window := by
        rcases hstows.stored with hsame | hset
        · exact hsame.le
        · rw [hset]
          exact Set.insert_subset (Iio_subset_marked _ _ hlt) subset_rfl
      exact (base_le_base hsame h.settled).trans (hreaches hmode)
    · have hbound := hkept (by omega)
      omega

end Receiver

/-! ## Packets that are lost for good -/

variable {cfg : Config} {s t : State} {e : Event}

/-- The receiver does not answer packet `k` any more: it has exited or left its
loop, it waits for a third handshake that never comes, or its window is too far
ahead. -/
def Deaf (cfg : Config) (s : State) (k : Nat) : Prop :=
  s.receiver.fatal = true ∨ s.receiver.pc.leftTransfer ∨ Stranded s ∨
    (s.receiver.pc = .transfer ∧ ¬ s.receiver.Reaches cfg.receiver k)

/-- Packet `k` is not acknowledged, no ACK in flight covers it, and the receiver
does not answer it. -/
structure Lost (cfg : Config) (k : Nat) (s : State) : Prop where
  acked : k ∉ s.sender.acked
  acks : InFlight s.toSender fun p => ∀ j < cfg.sender.npacket, AckOf cfg.sender j p →
    k ∉ Sender.covers cfg.sender.mode j
  receiver : Deaf cfg s k

/-- In selective repeat the base of the window only moves up, and a packet that
is more than one window behind is not answered. -/
theorem Receiver.recvData_of_not_reaches {cfg : ReceiverConfig} {start : UInt32} {n : Nat}
    {payload : Nat → List UInt8} {x : Receiver} {p : Packet} {i k : Nat}
    (hw : cfg.mode = .sr → cfg.wsize ≤ 2 ^ 30) (hn : n ≤ 1436) (h : Stores cfg payload n x)
    (hnum : Numbered cfg start x) (hi : i < n) (hseq : p.seqNum = seqnumAdd start i)
    (hfar : ¬ x.Reaches cfg k) :
    ¬ (recvData cfg x p).1.Reaches cfg k ∧
      ∀ q ∈ (recvData cfg x p).2, q.seqNum = seqnumAdd start i ∧ i ≠ k := by
  unfold Reaches at hfar ⊢
  rw [Classical.not_imp] at hfar ⊢
  obtain ⟨hmode, hfar⟩ := hfar
  replace hw := hw hmode
  have hshift := h.shift_le
  unfold Numbered at hnum
  rw [hmode] at hnum
  have hrecv : recvData cfg x p = recvSr cfg x p := by
    unfold recvData
    rw [hmode]
  rw [hrecv]
  unfold recvSr
  rw [hnum, hseq]
  by_cases hbefore : seqnumIsIn (seqnumAdd start i)
      (seqnumAdd (seqnumAdd start x.shift) (-(cfg.wsize : Int))) (seqnumAdd start x.shift) = true
  · have hin := (isIn_before start cfg.wsize_pos hw (by omega) (by omega)).mp hbefore
    rw [if_pos hbefore]
    refine ⟨⟨hmode, hfar⟩, fun q hq => ⟨by rw [List.mem_singleton.mp hq]; rfl, by omega⟩⟩
  · rw [if_neg hbefore]
    by_cases hwindow : seqnumIsIn (seqnumAdd start i) (seqnumAdd start x.shift)
        (seqnumAdd (seqnumAdd start x.shift) (cfg.wsize : Int)) = true
    · have hin := (isIn_window start cfg.wsize_pos hw (by omega) (by omega)).mp hwindow
      rw [if_pos hwindow]
      have hmono : x.shift ≤ (acceptSr cfg x p).shift := by
        unfold acceptSr
        exact Nat.le_add_right _ _
      refine ⟨⟨hmode, by simp only; omega⟩, fun q hq => ⟨?_, by omega⟩⟩
      rw [List.mem_singleton.mp hq]
      rfl
    · rw [if_neg hwindow]
      exact ⟨⟨hmode, hfar⟩, nofun⟩

/-- An ACK answers a data packet in the loop. -/
theorem Receiver.step_ack_sent {cfg : ReceiverConfig} {x x' : Receiver} {input : Input}
    {sent : List Packet} (h : Receiver.step cfg x input = some (x', sent)) {q : Packet}
    (hq : q ∈ sent) (hflags : q.flags = rtpAck) : x.pc = .transfer := by
  obtain ⟨_, hmove⟩ := Receiver.move_of_step cfg h
  cases hmove with
  | exit | listenTimeout | listenSkip | synAccept | enter | leave | skip | finSkip => cases hq
  | syn | synRetry | fin =>
    rw [List.mem_singleton.mp hq, controlPacket_flags] at hflags
    exact absurd hflags (by decide)
  | data hpc => exact hpc
  | close hpc sqn hsent =>
    rw [hsent q hq, controlPacket_flags] at hflags
    exact absurd hflags (by decide)

/-- A receiver that has left its loop does not come back. -/
theorem Receiver.step_left {cfg : ReceiverConfig} {x x' : Receiver} {input : Input}
    {sent : List Packet} (h : Receiver.step cfg x input = some (x', sent))
    (hleft : x.pc.leftTransfer) : x'.pc.leftTransfer := by
  obtain ⟨_, hmove⟩ := Receiver.move_of_step cfg h
  cases hmove with
  | exit | finSkip => exact hleft
  | fin | close => trivial
  | listenTimeout hpc | listenSkip hpc | syn hpc | synRetry hpc | synAccept hpc | enter hpc
  | leave hpc | skip hpc | data hpc =>
    rw [hpc] at hleft
    exact hleft.elim

/-- The steps of the others do not change that. -/
theorem Deaf.frame {k : Nat} (h : Deaf cfg s k) (hstep : Step cfg s e t)
    (hsame : t.receiver = s.receiver) : Deaf cfg t k := by
  rw [Deaf, hsame]
  exact h.imp id (.imp id (.imp (fun hstranded => hstranded.step hstep) id))

/-- A receiver that does not answer packet `k` stays so, and what it sends does not
acknowledge it. -/
theorem Deaf.receiver_step {k : Nat} (hcfg : cfg.Compatible) (hdata : DataInv cfg s)
    (h : Deaf cfg s k) {input : Input} {c : List Frame} {x : Receiver} {sent : List Packet}
    (hreceives : Receives s.toReceiver input c)
    (hstep : s.receiver.step cfg.receiver input = some (x, sent)) :
    Deaf cfg { s with receiver := x, toReceiver := c, toSender := s.toSender ++ sent.map .intact }
        k ∧
      ∀ q ∈ sent, ∀ j < cfg.sender.npacket, AckOf cfg.sender j q →
        k ∉ Sender.covers cfg.sender.mode j := by
  have hquiet : s.receiver.pc ≠ .transfer → ∀ q ∈ sent, ∀ j < cfg.sender.npacket,
      AckOf cfg.sender j q → k ∉ Sender.covers cfg.sender.mode j :=
    fun hpc q hq _ _ hack => absurd (Receiver.step_ack_sent hstep hq hack.1) hpc
  rcases h with hfatal | hleft | hstranded | ⟨hpc, hfar⟩
  · rw [(Receiver.move_of_step _ hstep).1] at hfatal
    cases hfatal
  · refine ⟨.inr (.inl (Receiver.step_left hstep hleft)), hquiet fun hpc => ?_⟩
    rw [hpc] at hleft
    exact hleft
  · have hstep' : Step cfg s (.receiver input) _ := .receiver hreceives hstep
    refine ⟨.inr (.inr (.inl (hstranded.step hstep'))), hquiet ?_⟩
    rw [hstranded.receiver]
    decide
  · obtain ⟨_, hmove⟩ := Receiver.move_of_step _ hstep
    cases hmove with
    | exit => exact ⟨.inl rfl, nofun⟩
    | leave => exact ⟨.inr (.inl trivial), nofun⟩
    | skip => exact ⟨.inr (.inr (.inr ⟨hpc, hfar⟩)), nofun⟩
    | @data p _ hflags =>
      have hentered : s.receiver.pc.enteredTransfer := by rw [hpc]; trivial
      have hn := cfg.sender.npacket_le
      have hle := hdata.sender.sentCount_le
      obtain ⟨i, hi, rfl⟩ := hdata.data.received hreceives hflags
      obtain ⟨hfar', hsent⟩ := Receiver.recvData_of_not_reaches
        (p := cfg.sender.dataPacket (seqnumAdd cfg.sender.start i) i) (i := i) hcfg.wsize hn
        (hdata.receiver.stores hentered) (hdata.receiver.numbered hpc) (by omega) rfl hfar
      have hpc' := (Receiver.recvData_phase cfg.receiver s.receiver
        (cfg.sender.dataPacket (seqnumAdd cfg.sender.start i) i)).1.trans hpc
      refine ⟨.inr (.inr (.inr ⟨hpc', hfar'⟩)), ?_⟩
      intro q hq j hj hack hcovers
      have hmode : cfg.sender.mode = .sr := by
        unfold Receiver.Reaches at hfar
        rw [Classical.not_imp] at hfar
        exact hcfg.mode.trans hfar.1
      obtain ⟨hseq, hne⟩ := hsent q hq
      have hnum := hack.2
      rw [hmode] at hnum hcovers
      have hsame : Sender.ackNumber .sr q = seqnumAdd cfg.sender.start i := by
        rw [Sender.ackNumber, hseq]
        simp [Mode.toNat]
      have heq : i = j := seqnumAdd_inj (by omega) (by omega) (hsame.symm.trans hnum)
      exact hne (heq.trans (Set.mem_singleton_iff.mp hcovers).symm)
    | listenTimeout hpc' | listenSkip hpc' | syn hpc' | synRetry hpc' | synAccept hpc' | enter hpc'
    | finSkip hpc' | fin hpc' | close hpc' =>
      rw [hpc] at hpc'
      cases hpc'

/-- Once a packet is lost it stays lost. -/
theorem Lost.step {k : Nat} (hcfg : cfg.Compatible) (hdata : DataInv cfg s) (h : Lost cfg k s)
    (hstep : Step cfg s e t) : Lost cfg k t := by
  cases hstep with
  | @sender input c x sent hreceives hstep =>
    refine { acked := ?_, acks := h.acks.receives hreceives, receiver := ?_ }
    · rcases (hdata.sender_step hreceives hstep).1.acked with hsame | ⟨p, j, rfl, hflags, hj, hnum, hset⟩
      · rw [hsame]
        exact h.acked
      · have hlt : j < cfg.sender.npacket := Nat.lt_of_lt_of_le hj hdata.sender.sentCount_le
        have hnot := h.acks.received hreceives j hlt ⟨hflags, hnum⟩
        rw [hset]
        exact fun hk => hk.elim h.acked hnot
    · exact h.receiver.frame (.sender hreceives hstep) rfl
  | @receiver input c x sent hreceives hstep =>
    obtain ⟨hdeaf, hsent⟩ := h.receiver.receiver_step hcfg hdata hreceives hstep
    exact ⟨h.acked, h.acks.send hsent, hdeaf⟩
  | toReceiver hchannel =>
    exact { h with receiver := h.receiver.frame (.toReceiver hchannel) rfl }
  | toSender hchannel =>
    exact {
      acked := h.acked
      acks := h.acks.channel hchannel
      receiver := h.receiver.frame (.toSender hchannel) rfl }

/-- As long as a packet is not acknowledged the sender does not leave its loop. -/
theorem DataInv.not_left {k : Nat} (h : DataInv cfg s) (hk : k < cfg.sender.npacket)
    (hacked : k ∉ s.sender.acked) : ¬ s.sender.pc.leftTransfer := by
  intro hleft
  have hle := h.sender.shift_le_of_not_acked hacked
  rw [(h.sender.finished hleft).2] at hle
  omega

/-! ## Runs that finish the transfer -/

/-- The sender is in its loop or through it, and no packet is lost. -/
structure Hopeful (cfg : Config) (s : State) : Prop where
  reachable : (network cfg).Reachable s
  running : s.sender.fatal = false
  entered : s.sender.pc.enteredTransfer
  served : ∀ k < cfg.sender.npacket, k ∉ s.sender.acked → s.HasAck cfg k ∨ s.Serves cfg k

theorem Hopeful.dataInv (hcfg : cfg.Compatible) (h : Hopeful cfg s) : DataInv cfg s :=
  dataInv_reachable hcfg (starts_network cfg) h.reachable

theorem Hopeful.aligned (hcfg : cfg.Compatible) (h : Hopeful cfg s) (hpc : s.sender.pc = .transfer) :
    s.sender.Aligned cfg.sender cfg.sender.start (sqnDis s.sender.wbase s.sender.sqn) ∧
      0 < sqnDis s.sender.wbase s.sender.sqn :=
  ⟨(h.dataInv hcfg).sender.aligned h.entered, (h.dataInv hcfg).sender.busy hpc⟩

/-- Hope depends on the sender, on the ACKs in flight, and on whether the receiver
answers what is not acknowledged. -/
theorem Hopeful.of_same_sender (hcfg : cfg.Compatible) (h : Hopeful cfg s)
    (ht : (network cfg).Reachable t) (hsender : t.sender = s.sender)
    (hframes : ∀ f ∈ s.toSender, f ∈ t.toSender)
    (hserves : ∀ k, s.sender.shift ≤ k → s.Serves cfg k → t.Serves cfg k) : Hopeful cfg t := by
  refine ⟨ht, hsender ▸ h.running, hsender ▸ h.entered, fun k hk hacked => ?_⟩
  rw [hsender] at hacked
  rcases h.served k hk hacked with ⟨j, hj, hcovers, p, hmem, hack⟩ | hk'
  · exact .inl ⟨j, hj, hcovers, p, hframes _ hmem, hack⟩
  · exact .inr (hserves k ((h.dataInv hcfg).sender.shift_le_of_not_acked hacked) hk')

/-- A receiver that attends gets into its loop. -/
theorem State.Attends.path (hs : (network cfg).Reachable s) (hsender : s.sender.pc ≠ .synSent)
    (hb : s.Attends cfg) :
    ∃ t, (network cfg).Path LossFree s t ∧ t.sender = s.sender ∧ t.toSender = s.toSender ∧
      t.Open ∧ ∀ k, s.receiver.Reaches cfg.receiver k → t.receiver.Reaches cfg.receiver k := by
  have hstart : (network cfg).Path LossFree s s := .refl s
  cases hpc : s.receiver.pc with
  | listen => exact absurd hpc ((heard_of_reachable hs).sender hsender)
  | synReceived =>
    have hmem := hb.ack hpc
    rw [← (lifecycle_reachable hs).receiverSqn (.inl hpc)] at hmem
    have haccept := path_receiver hstart (by trivial) (.frame hmem)
      (Receiver.step_ack cfg.receiver hpc hb.running)
    have henter := path_receiver haccept (by trivial) .run
      (Receiver.step_enter cfg.receiver rfl hb.running)
    simp only [List.map_nil, List.append_nil] at henter
    exact ⟨_, henter, rfl, rfl, ⟨rfl, hb.running⟩, fun _ _ _ => Nat.zero_le _⟩
  | established =>
    have henter := path_receiver hstart (by trivial) .run
      (Receiver.step_enter cfg.receiver hpc hb.running)
    simp only [List.map_nil, List.append_nil] at henter
    exact ⟨_, henter, rfl, rfl, ⟨rfl, hb.running⟩, fun _ _ _ => Nat.zero_le _⟩
  | transfer => exact ⟨s, hstart, rfl, rfl, ⟨hpc, hb.running⟩, fun _ hk => hk⟩
  | finWait | finReplied | closed =>
    have hstays := hb.stays
    rw [hpc] at hstays
    exact absurd trivial hstays

/-- The sender times out and repeats its first outstanding packet. -/
theorem Hopeful.repeat_path (hcfg : cfg.Compatible) (hzero : cfg.sender.start.toNat = 0)
    (h : Hopeful cfg s) (hpc : s.sender.pc = .transfer) :
    ∃ t, (network cfg).Path LossFree s t ∧ t.sender = s.sender ∧ t.receiver = s.receiver ∧
      t.toSender = s.toSender ∧
      .intact (cfg.sender.dataPacket (seqnumAdd cfg.sender.start s.sender.shift) s.sender.shift) ∈
        t.toReceiver := by
  obtain ⟨haligned, ho⟩ := h.aligned hcfg hpc
  have hstart : (network cfg).Path LossFree s s := .refl s
  have hresent : Sender.transferRecv cfg.sender s.sender .timeout =
      (s.sender, Sender.resend cfg.sender s.sender (sqnDis s.sender.wbase s.sender.sqn) 0) := by
    simp only [Sender.transferRecv, Sender.transferLoop_busy haligned ho hpc, List.append_nil]
  have hstep := Sender.step_transfer cfg.sender hpc h.running .timeout
  rw [hresent] at hstep
  refine ⟨_, path_sender hstart (by trivial) .timeout hstep, rfl, rfl, rfl, ?_⟩
  exact List.mem_append_right _ (List.mem_map_of_mem (Sender.mem_resend_first haligned ho hzero))

/-- The repeated packet arrives and is answered. -/
theorem Hopeful.answer_path (hcfg : cfg.Compatible) (h : Hopeful cfg s)
    (hpc : s.sender.pc = .transfer) (hopen : s.Open)
    (hreaches : s.receiver.Reaches cfg.receiver s.sender.shift)
    (hmem : .intact (cfg.sender.dataPacket (seqnumAdd cfg.sender.start s.sender.shift)
      s.sender.shift) ∈ s.toReceiver) :
    ∃ t, (network cfg).Path LossFree s t ∧ t.sender = s.sender ∧ t.Open ∧
      (∀ f ∈ s.toSender, f ∈ t.toSender) ∧ t.HasAck cfg s.sender.shift ∧
      t.receiver.Reaches cfg.receiver s.sender.shift := by
  obtain ⟨haligned, ho⟩ := h.aligned hcfg hpc
  have hdata := h.dataInv hcfg
  have hn := cfg.sender.npacket_le
  have hsent := haligned.sent_le
  have hentered : s.receiver.pc.enteredTransfer := by rw [hopen.1]; trivial
  have hlower := (windows_ordered hcfg (starts_network cfg) h.reachable).1
  have hstart : (network cfg).Path LossFree s s := .refl s
  generalize hp : cfg.sender.dataPacket (seqnumAdd cfg.sender.start s.sender.shift)
    s.sender.shift = p at hmem
  have hflags : p.flags = 0 := by rw [← hp]; rfl
  obtain ⟨⟨j, hj, hanswer, hcovers⟩, hreaches'⟩ := Receiver.recvData_serves (p := p)
    (k := s.sender.shift) hcfg.wsize cfg.sender.blocked_payload hn
    (hdata.receiver.stores hentered) (hdata.receiver.numbered hopen.1) (by omega)
    (by rw [← hp]; rfl) (by rw [← hp]; rfl) hlower hreaches
  have hpath := path_receiver hstart (by trivial) (.frame hmem)
    (Receiver.step_transfer_data cfg.receiver hopen.1 hopen.2 hflags)
  refine ⟨_, hpath, rfl, ⟨?_, ?_⟩, fun f hf => List.mem_append_left _ hf, ?_, hreaches'⟩
  · exact (Receiver.recvData_phase _ _ _).1.trans hopen.1
  · exact (Receiver.recvData_fatal _ _).trans hopen.2
  · rw [hanswer]
    refine ⟨j, hj, hcfg.mode ▸ hcovers, _,
      List.mem_append_right _ (List.mem_singleton_self _), rfl, ?_⟩
    rw [hcfg.mode]
    exact Sender.ackNumber_ackFor _ _ _

/-- A packet that the receiver serves gets its ACK. -/
theorem Hopeful.serve_path (hcfg : cfg.Compatible) (hzero : cfg.sender.start.toNat = 0)
    (h : Hopeful cfg s) (hpc : s.sender.pc = .transfer) (hserves : s.Serves cfg s.sender.shift) :
    ∃ t, (network cfg).Path LossFree s t ∧ Hopeful cfg t ∧ t.sender = s.sender ∧ t.Open ∧
      t.HasAck cfg s.sender.shift := by
  have hsyn : s.sender.pc ≠ .synSent := by
    rw [hpc]
    decide
  obtain ⟨t₁, hpath₁, hsender₁, hframes₁, hopen₁, hreaches₁⟩ :=
    hserves.attends.path h.reachable hsyn
  have hope₁ : Hopeful cfg t₁ := by
    refine h.of_same_sender hcfg (h.reachable.path hpath₁) hsender₁ (fun f hf => hframes₁ ▸ hf) ?_
    exact fun k _ hk => ⟨hopen₁.attends, hreaches₁ k hk.reaches⟩
  rw [← hsender₁] at hpc
  obtain ⟨t₂, hpath₂, hsender₂, hreceiver₂, hframes₂, hmem₂⟩ := hope₁.repeat_path hcfg hzero hpc
  have hopen₂ : t₂.Open := by rw [State.Open, hreceiver₂]; exact hopen₁
  have hope₂ : Hopeful cfg t₂ := by
    refine hope₁.of_same_sender hcfg (hope₁.reachable.path hpath₂) hsender₂
      (fun f hf => hframes₂ ▸ hf) ?_
    exact fun k _ hk => ⟨hopen₂.attends, hreceiver₂ ▸ hk.reaches⟩
  rw [← hsender₂] at hpc hmem₂
  have hreaches₂ : t₂.receiver.Reaches cfg.receiver t₂.sender.shift := by
    rw [hreceiver₂, hsender₂, hsender₁]
    exact hreaches₁ _ hserves.reaches
  obtain ⟨t₃, hpath₃, hsender₃, hopen₃, hframes₃, hack₃, hreaches₃⟩ :=
    hope₂.answer_path hcfg hpc hopen₂ hreaches₂ hmem₂
  have hsame : t₃.sender = s.sender := hsender₃.trans (hsender₂.trans hsender₁)
  refine ⟨t₃, (hpath₁.trans hpath₂).trans hpath₃, ?_, hsame, hopen₃, ?_⟩
  · refine hope₂.of_same_sender hcfg (hope₂.reachable.path hpath₃) hsender₃ hframes₃ ?_
    intro k hk _
    exact ⟨hopen₃.attends, fun hmode => (hreaches₃ hmode).trans (Nat.add_le_add_right hk _)⟩
  · rw [← hsender₁, ← hsender₂]
    exact hack₃

/-- An ACK that covers the first outstanding packet moves the window. -/
theorem Hopeful.take_path (hcfg : cfg.Compatible) (h : Hopeful cfg s)
    (hpc : s.sender.pc = .transfer) (hack : s.HasAck cfg s.sender.shift) :
    ∃ t, (network cfg).Path LossFree s t ∧ Hopeful cfg t ∧ t.receiver = s.receiver ∧
      s.sender.shift < t.sender.shift := by
  obtain ⟨haligned, ho⟩ := h.aligned hcfg hpc
  have hdata := h.dataInv hcfg
  have hn := cfg.sender.npacket_le
  have hcount := hdata.sender.sentCount_le
  have hstart : (network cfg).Path LossFree s s := .refl s
  obtain ⟨j, hj, hcovers, p, hmem, hflags, hnum⟩ := hack
  have hself : j ∈ Sender.covers cfg.sender.mode j := by
    cases cfg.sender.mode with
    | sr => exact Set.mem_singleton j
    | gbn => exact Nat.lt_succ_self j
  have hsent : j < s.sender.sentCount := hdata.stored_lt
    ((hdata.acks _ hmem hflags).covers_subset hdata.stored_lt (by omega) (by omega) hnum hself)
  rw [Sender.sentCount_of_entered h.entered] at hsent
  have hfirst : s.sender.shift ≤ j ∧ (j = s.sender.shift ∨ cfg.sender.mode = .gbn) := by
    cases hmode : cfg.sender.mode with
    | sr =>
      rw [hmode] at hcovers
      have heq := Set.mem_singleton_iff.mp hcovers
      exact ⟨heq.le, .inl heq.symm⟩
    | gbn =>
      rw [hmode] at hcovers
      exact ⟨Nat.le_of_lt_succ hcovers, .inr rfl⟩
  obtain ⟨hle, hfirst⟩ := hfirst
  obtain ⟨d, rfl⟩ : ∃ d, j = s.sender.shift + d := ⟨j - s.sender.shift, by omega⟩
  obtain ⟨hmoves, hmarked⟩ := Sender.transferRecv_of_ack haligned (by omega) hflags hnum
  have hpath := path_sender hstart (by trivial) (.frame hmem)
    (Sender.step_transfer cfg.sender hpc h.running _)
  have hentered : (Sender.transferRecv cfg.sender s.sender (.ok p)).1.pc.enteredTransfer := by
    rcases (Sender.transferRecv_phase cfg.sender s.sender (.ok p)).1 with hpc' | hpc' <;>
      rw [hpc'] <;> trivial
  refine ⟨_, hpath, ⟨h.reachable.path hpath, ?_, hentered, ?_⟩, rfl,
    hmoves (hfirst.imp (by omega) id)⟩
  · exact (Sender.transferRecv_fatal _ _).trans h.running
  intro k hk hacked
  simp only [Frame.recv, Sender.acked_of_entered hentered, hmarked] at hacked
  have hbefore : k ∉ s.sender.acked := by
    rw [Sender.acked_of_entered h.entered]
    exact fun hin => hacked (.inl hin)
  rcases h.served k hk hbefore with ⟨i, hi, hcovers', q, hq, hack⟩ | hserves
  · -- the ACK that was taken covers no packet that is still open
    have hne : Frame.intact q ≠ .intact p := by
      intro heq
      have hsame : q = p := Frame.intact.inj heq
      have heq' : i = s.sender.shift + d :=
        seqnumAdd_inj (by omega) (by omega) (hack.2.symm.trans (hsame ▸ hnum))
      exact hacked (.inr (heq' ▸ hcovers'))
    exact .inl ⟨i, hi, hcovers', q, (List.mem_erase_of_ne hne).mpr hq, hack⟩
  · have hattends := hserves.attends
    exact .inr ⟨{ hattends with
      ack := fun hwaits => List.mem_append_left _ (hattends.ack hwaits) }, hserves.reaches⟩

/-- A receiver in its loop stays there, and one that has left it is not touched. -/
structure Steady (s t : State) : Prop where
  stays : s.Open → t.Open
  left : s.receiver.pc.leftTransfer → t.receiver = s.receiver

theorem Steady.trans {u : State} (h : Steady s t) (h' : Steady t u) : Steady s u where
  stays hs := h'.stays (h.stays hs)
  left hs := by
    have heq := h.left hs
    rw [← heq] at hs
    exact (h'.left hs).trans heq

/-- Every hopeful state in the loop has a run that moves the sender's window. -/
theorem Hopeful.progress (hcfg : cfg.Compatible) (hzero : cfg.sender.start.toNat = 0)
    (h : Hopeful cfg s) (hbusy : ¬ s.sender.pc.leftTransfer) :
    ∃ t, (network cfg).Path LossFree s t ∧ Hopeful cfg t ∧ Steady s t ∧
      cfg.sender.npacket - t.sender.shift < cfg.sender.npacket - s.sender.shift := by
  have hpc : s.sender.pc = .transfer := by
    have hentered := h.entered
    cases hpc : s.sender.pc with
    | transfer => rfl
    | synSent | ackSent | established =>
      rw [hpc] at hentered
      exact hentered.elim
    | transferred | finSent | closed =>
      rw [hpc] at hbusy
      exact absurd trivial hbusy
  obtain ⟨haligned, ho⟩ := h.aligned hcfg hpc
  have hsent := haligned.sent_le
  have hopen : s.sender.shift ∉ s.sender.acked := by
    rw [Sender.acked_of_entered h.entered]
    exact (isLeast_of_settled haligned.settled).1
  have htake : ∀ u, (network cfg).Path LossFree s u → Hopeful cfg u → u.sender = s.sender →
      Steady s u → u.HasAck cfg s.sender.shift →
      ∃ t, (network cfg).Path LossFree s t ∧ Hopeful cfg t ∧ Steady s t ∧
        cfg.sender.npacket - t.sender.shift < cfg.sender.npacket - s.sender.shift := by
    intro u hpath hope hsender hsteady hack
    rw [← hsender] at hpc hack
    obtain ⟨t, hrest, hope', hreceiver, hmoves⟩ := hope.take_path hcfg hpc hack
    rw [hsender] at hmoves
    have hsteady' : Steady u t := ⟨fun hu => by rw [State.Open, hreceiver]; exact hu, fun _ => hreceiver⟩
    exact ⟨t, hpath.trans hrest, hope', hsteady.trans hsteady', by omega⟩
  rcases h.served s.sender.shift (by omega) hopen with hack | hserves
  · exact htake s (.refl s) h rfl ⟨id, fun _ => rfl⟩ hack
  · obtain ⟨u, hpath, hope, hsender, hopen', hack⟩ := h.serve_path hcfg hzero hpc hserves
    exact htake u hpath hope hsender
      ⟨fun _ => hopen', fun hleft => absurd hleft hserves.attends.stays⟩ hack

/-- Without loss a hopeful sender leaves its loop. -/
theorem Hopeful.exists_done (hcfg : cfg.Compatible) (hzero : cfg.sender.start.toNat = 0)
    (h : Hopeful cfg s) :
    ∃ t, (network cfg).Path LossFree s t ∧ Hopeful cfg t ∧ Steady s t ∧
      t.sender.pc.leftTransfer := by
  have hprogress : ∀ u, Hopeful cfg u ∧ Steady s u → ¬ u.sender.pc.leftTransfer →
      ∃ t, (network cfg).Path LossFree u t ∧ (Hopeful cfg t ∧ Steady s t) ∧
        cfg.sender.npacket - t.sender.shift < cfg.sender.npacket - u.sender.shift := by
    intro u ⟨hope, hsteady⟩ hbusy
    obtain ⟨t, hpath, hope', hsteady', hless⟩ := hope.progress hcfg hzero hbusy
    exact ⟨t, hpath, ⟨hope', hsteady.trans hsteady'⟩, hless⟩
  obtain ⟨t, hpath, ⟨hope, hsteady⟩, hleft⟩ :=
    System.exists_path_of_measure (fun u : State => cfg.sender.npacket - u.sender.shift) hprogress
      ⟨h, id, fun _ => rfl⟩
  exact ⟨t, hpath, hope, hsteady, hleft⟩

/-! ## When the sender can leave its loop -/

/-- A receiver that is out of its loop, or too far ahead, is deaf. -/
theorem deaf_of_far {k : Nat} (hcfg : cfg.Compatible) (hs : (network cfg).Reachable s)
    (h : ¬ (¬ s.receiver.pc.leftTransfer ∧ s.receiver.Reaches cfg.receiver k)) : Deaf cfg s k := by
  have hdata := dataInv_reachable hcfg (starts_network cfg) hs
  by_cases hleft : s.receiver.pc.leftTransfer
  · exact .inr (.inl hleft)
  have hfar : ¬ s.receiver.Reaches cfg.receiver k := fun hreaches => h ⟨hleft, hreaches⟩
  cases hpc : s.receiver.pc with
  | transfer => exact .inr (.inr (.inr ⟨hpc, hfar⟩))
  | listen | synReceived | established =>
    have hidle : ¬ s.receiver.pc.enteredTransfer := by rw [hpc]; exact id
    refine absurd (fun _ => ?_) hfar
    rw [(hdata.receiver.idle hidle).1]
    exact Nat.zero_le _
  | finWait | finReplied | closed =>
    rw [hpc] at hleft
    exact absurd trivial hleft

/-- A receiver that does not serve a packet is deaf to it. -/
theorem deaf_of_not_serves {k : Nat} (hcfg : cfg.Compatible) (hs : (network cfg).Reachable s)
    (hsender : s.sender.pc.pastEstablish) (h : ¬ s.Serves cfg k) : Deaf cfg s k := by
  by_cases hnear : ¬ s.receiver.pc.leftTransfer ∧ s.receiver.Reaches cfg.receiver k
  · by_contra hdeaf
    rw [Deaf, not_or, not_or, not_or] at hdeaf
    obtain ⟨hrunning, _, hstranded, _⟩ := hdeaf
    refine h ⟨⟨by simpa using hrunning, hnear.1, fun hpc => ?_⟩, hnear.2⟩
    by_contra hnone
    exact hstranded ⟨hsender, hpc, no_ack hs hnone⟩
  · exact deaf_of_far hcfg hs hnear

/-- A packet without an ACK on the way is lost to a receiver that is deaf to it. -/
theorem lost_of_deaf {k : Nat} (hacked : k ∉ s.sender.acked) (hnone : ¬ s.HasAck cfg k)
    (hdeaf : Deaf cfg s k) : Lost cfg k s := by
  refine ⟨hacked, fun f hf => ?_, hdeaf⟩
  cases f with
  | corrupted p => trivial
  | intact p => exact fun j hj hack hcovers => hnone ⟨j, hj, hcovers, p, hf, hack⟩

/-- No run acknowledges a lost packet. -/
theorem Lost.dead_end {k : Nat} (hcfg : cfg.Compatible) (hs : (network cfg).Reachable s)
    (hk : k < cfg.sender.npacket) (h : Lost cfg k s)
    (hpath : (network cfg).Path (fun _ => True) s t) : ¬ t.sender.pc.leftTransfer := by
  have hkeep : ∀ u e v, (network cfg).Reachable u ∧ Lost cfg k u → True → Step cfg u e v →
      (network cfg).Reachable v ∧ Lost cfg k v :=
    fun u e v hu _ hstep => ⟨.step hu.1 hstep,
      hu.2.step hcfg (dataInv_reachable hcfg (starts_network cfg) hu.1) hstep⟩
  obtain ⟨ht, hlost⟩ :=
    hpath.invariant (P := fun u => (network cfg).Reachable u ∧ Lost cfg k u) hkeep ⟨hs, h⟩
  exact (dataInv_reachable hcfg (starts_network cfg) ht).not_left hk hlost.acked

/-- **When a transfer can still be finished.**  Let both programs run in one mode, with
windows that may differ, in selective repeat a receiver's window of at most `2 ^ 30`.
A sender in its loop can still leave it exactly when every packet that is not
acknowledged has an ACK on the way or a receiver that answers it. -/
theorem transfer_completes_iff (cfg : Config) (hcfg : cfg.Compatible)
    (hisn : cfg.sender.isn = getRandomSeqnum) {s : State} (hs : (network cfg).Reachable s)
    (hpc : s.sender.pc = .transfer) (hrunning : s.sender.fatal = false) :
    (∃ t, (network cfg).Path (fun _ => True) s t ∧ t.sender.pc.leftTransfer) ↔
      ∀ k < cfg.sender.npacket, k ∉ s.sender.acked → s.HasAck cfg k ∨ s.Serves cfg k := by
  have hzero : cfg.sender.start.toNat = 0 := by
    unfold SenderConfig.start
    rw [hisn]
    decide
  have hentered : s.sender.pc.enteredTransfer := by rw [hpc]; trivial
  have hpast : s.sender.pc.pastEstablish := by rw [hpc]; trivial
  constructor
  · intro ⟨t, hpath, hleft⟩ k hk hacked
    by_contra hnot
    rw [not_or] at hnot
    have hlost := lost_of_deaf hacked hnot.1 (deaf_of_not_serves hcfg hs hpast hnot.2)
    exact hlost.dead_end hcfg hs hk hpath hleft
  · intro hserved
    have hope : Hopeful cfg s := ⟨hs, hrunning, hentered, hserved⟩
    obtain ⟨t, hpath, _, _, hleft⟩ := hope.exists_done hcfg hzero
    exact ⟨t, hpath.mono fun _ _ => trivial, hleft⟩

/-- The only packet of the file is in flight to a receiver in its loop. -/
theorem transfer_completes_oneByte :
    ∃ s, (network (oneByte .sr)).Reachable s ∧ s.sender.pc = .transfer ∧
      s.sender.fatal = false ∧
      ∃ t, (network (oneByte .sr)).Path (fun _ => True) s t ∧ t.sender.pc.leftTransfer := by
  have h := transfer_reachable (oneByte .sr) ⟨.transfer, false, 0, 1, 0, 0, [false]⟩
    [⟨0, 0, [7]⟩] (by decide +kernel)
  refine ⟨_, h, rfl, rfl,
    (transfer_completes_iff (oneByte .sr) ⟨rfl, fun _ => by decide⟩ rfl h rfl rfl).mpr ?_⟩
  intro k _ _
  exact .inr ⟨⟨rfl, id, nofun⟩, fun _ => Nat.zero_le _⟩

end NetLabs.Rtp
