import NetLabs.Rtp.Recovery

/-!
# Two window sizes

Sender and receiver take their window sizes from their own command lines.  In
selective repeat the sender may have more packets outstanding than the receiver
has slots.  The receiver then moves its window past a packet whose ACK was lost,
and does not answer the repetitions of that packet.

`never_stuck_iff`: no run comes to such a state if and only if the receiver has a
slot for every packet of the largest batch.  Go-back-N has no such condition.  Both
programs run in one mode, and in selective repeat the receiver's window is at most
`2 ^ 30` (`Config.Compatible`).
-/

namespace NetLabs.Rtp

open NetLabs.Lib

/-- The largest batch of the sender. -/
def SenderConfig.batch (cfg : SenderConfig) : Nat := min cfg.wsize cfg.npacket

/-! ## Enough slots -/

variable {cfg : Config} {s t : State}

/-- The receiver is never further ahead than one batch. -/
theorem shift_le_batch (hcfg : cfg.Compatible) (hs : (network cfg).Reachable s)
    (hpc : s.sender.pc = .transfer) : s.receiver.shift ≤ s.sender.shift + cfg.sender.batch := by
  have hentered : s.sender.pc.enteredTransfer := by rw [hpc]; trivial
  have hdata := dataInv_reachable hcfg (starts_network cfg) hs
  have haligned := hdata.sender.aligned hentered
  have hsent := haligned.sent_le
  have hoven := haligned.outstanding_le
  have hupper := (windows_ordered hcfg (starts_network cfg) hs).2
  rw [Sender.outstanding, Sender.sentCount_of_entered hentered] at hupper
  have hbatch : sqnDis s.sender.wbase s.sender.sqn ≤ cfg.sender.batch :=
    Nat.le_min.mpr ⟨hoven, by omega⟩
  omega

/-- With a slot for every packet of a batch the receiver serves whatever is not
acknowledged. -/
theorem hopeful_of_batch_le (hcfg : cfg.Compatible)
    (hbatch : cfg.receiver.mode = .sr → cfg.sender.batch ≤ cfg.receiver.wsize)
    (hs : (network cfg).Reachable s) (hpc : s.sender.pc = .transfer)
    (hrunning : s.sender.fatal = false) (hopen : s.Open) : Hopeful cfg s := by
  have hdata := dataInv_reachable hcfg (starts_network cfg) hs
  refine ⟨hs, hrunning, by rw [hpc]; trivial, fun k _ hacked => .inr ?_⟩
  refine ⟨hopen.attends, fun hmode => ?_⟩
  have hle := hdata.sender.shift_le_of_not_acked hacked
  have hshift := shift_le_batch hcfg hs hpc
  have hslots := hbatch hmode
  omega

/-! ## Too few slots -/

/-- A settled window that marks the numbers below `i` has its base at `i`. -/
theorem base_eq_of_marked {base i : Nat} {slots : List Bool} (h : Settled slots)
    (hset : marked base slots = Set.Iio i) : base = i := by
  have hle := base_le_of_subset hset.le
  have hleast : base ∉ marked base slots := (isLeast_of_settled h).1
  rw [hset] at hleast
  exact Nat.le_antisymm hle (Nat.not_lt.mp hleast)

/-- The run so far: the receiver has stored the first `i` packets of the batch
and every ACK is lost. -/
structure Overrun (cfg : Config) (i : Nat) (s : State) : Prop where
  reachable : (network cfg).Reachable s
  sender : s.sender.pc = .transfer ∧ s.sender.fatal = false ∧ s.sender.acked = ∅
  receiver : s.Open
  stored : s.receiver.stored = Set.Iio i
  rest : ∀ k, i ≤ k → k < cfg.sender.batch →
    .intact (cfg.sender.dataPacket (seqnumAdd cfg.sender.start k) k) ∈ s.toReceiver
  toSender : s.toSender = []

theorem Overrun.shift (hcfg : cfg.Compatible) {i : Nat} (h : Overrun cfg i s) :
    s.receiver.shift = i := by
  have hdata := dataInv_reachable hcfg (starts_network cfg) h.reachable
  have hset := h.stored
  rw [hdata.receiver.stored_eq] at hset
  exact base_eq_of_marked hdata.receiver.settled hset

/-- The next packet of the batch arrives, and its ACK is lost. -/
theorem Overrun.next (hcfg : cfg.Compatible) (hmode : cfg.receiver.mode = .sr) {i : Nat}
    (h : Overrun cfg i s) (hi : i < cfg.sender.batch) : ∃ t, Overrun cfg (i + 1) t := by
  have hdata := dataInv_reachable hcfg (starts_network cfg) h.reachable
  have hn := cfg.sender.npacket_le
  have hin : i < cfg.sender.npacket := Nat.lt_of_lt_of_le hi (Nat.min_le_right _ _)
  have hentered : s.receiver.pc.enteredTransfer := by rw [h.receiver.1]; trivial
  have hshift := h.shift hcfg
  have hmem := h.rest i (Nat.le_refl i) hi
  generalize hp : cfg.sender.dataPacket (seqnumAdd cfg.sender.start i) i = p at hmem
  have hflags : p.flags = 0 := by rw [← hp]; rfl
  have hseq : p.seqNum = seqnumAdd cfg.sender.start i := by rw [← hp]; rfl
  have hpayload : p.payload = cfg.sender.payload i := by rw [← hp]; rfl
  have hstores := hdata.receiver.stores hentered
  have hnumbered := hdata.receiver.numbered h.receiver.1
  obtain ⟨j, hanswer, _, hj, hstored⟩ := Receiver.recvData_answers (hcfg.wsize hmode)
    cfg.sender.blocked_payload hn hstores hnumbered hin hseq hpayload (by omega)
    (fun _ => by omega)
  have hji : j = i := by
    rcases hj with rfl | hgbn
    · rfl
    · rw [hmode] at hgbn
      cases hgbn
  rw [hji] at hanswer hstored
  have hstows := Receiver.recvData_stows hcfg.wsize cfg.sender.blocked_payload hn hstores
    hnumbered hin hseq hpayload
  have hbefore : marked s.receiver.shift s.receiver.window = Set.Iio i := by
    rw [← hdata.receiver.stored_eq, h.stored]
  have hafter : marked (Receiver.recvData cfg.receiver s.receiver p).1.shift
      (Receiver.recvData cfg.receiver s.receiver p).1.window = Set.Iio (i + 1) := by
    rcases hstows.stored with hsame | hset
    · rw [hsame, hbefore] at hstored
      exact absurd hstored (Nat.lt_irrefl i)
    · rw [hset, hbefore]
      ext k
      simp only [Set.mem_insert_iff, Set.mem_Iio]
      omega
  have hpc' : (Receiver.recvData cfg.receiver s.receiver p).1.pc = .transfer :=
    (Receiver.recvData_phase _ _ _).1.trans h.receiver.1
  have hreach := reachable_receiver h.reachable (.frame hmem)
    (Receiver.step_transfer_data cfg.receiver h.receiver.1 h.receiver.2 hflags)
  simp only [hanswer, h.toSender, List.nil_append, List.map_cons, List.map_nil]
    at hreach
  replace hreach := System.Reachable.step hreach (Step.toSender (.lose List.mem_cons_self))
  rw [List.erase_cons_head] at hreach
  refine ⟨_, hreach, h.sender, ⟨hpc', ?_⟩, ?_, ?_, rfl⟩
  · exact (Receiver.recvData_fatal _ _).trans h.receiver.2
  · rw [Receiver.stored_of_entered (by rw [hpc']; trivial), hafter]
  · intro k hk hlt
    have hkn : k < cfg.sender.npacket := Nat.lt_of_lt_of_le hlt (Nat.min_le_right _ _)
    have hne : Frame.intact (cfg.sender.dataPacket (seqnumAdd cfg.sender.start k) k) ≠
        .intact p := by
      intro heq
      have hnum : seqnumAdd cfg.sender.start k = p.seqNum :=
        congrArg Packet.seqNum (Frame.intact.inj heq)
      have heq' : k = i := seqnumAdd_inj (by omega) (by omega) (hnum.trans hseq)
      omega
    exact (List.mem_erase_of_ne hne).mpr (h.rest k (by omega) hlt)

/-- Entry of `transfer_data`: the first batch is sent. -/
theorem Sender.transferStart_eq {cfg : SenderConfig} {x : Sender} (hsqn : x.sqn = cfg.start)
    (hpos : 0 < cfg.npacket) :
    transferStart cfg x =
      ({ x with
          pc := .transfer, wbase := cfg.start, shift := 0,
          window := List.replicate cfg.wsize false, sqn := seqnumAdd cfg.start cfg.batch },
        (List.range' 0 cfg.batch).map fun k : Nat =>
          cfg.dataPacket (seqnumAdd cfg.start k) k) := by
  have hbatch := sendBatch_eq cfg cfg.start 0 cfg.npacket 0 (by omega)
  have hzero : seqnumAdd cfg.start (0 : Nat) = cfg.start := seqnumAdd_zero cfg.isSeqnum_start
  simp only [Nat.add_zero, Nat.zero_add, Nat.sub_zero, hzero] at hbatch
  simp only [transferStart, transferLoop, if_pos hpos, if_true, Nat.sub_zero, hsqn, hbatch]
  rfl

/-- The first batch is in flight to a receiver in its loop. -/
theorem exists_overrun_zero (cfg : Config) (hpos : 0 < cfg.sender.npacket) :
    ∃ s, Overrun cfg 0 s := by
  have hreach := transfer_reachable cfg _ _ (Sender.transferStart_eq rfl hpos)
  refine ⟨_, hreach, ⟨rfl, rfl, ?_⟩, ⟨rfl, rfl⟩, ?_, ?_, rfl⟩
  · rw [Sender.acked_of_entered (by trivial)]
    simp only [marked_replicate_false]
    exact Set.Iio_bot
  · rw [Receiver.stored_of_entered (by trivial)]
    simp only [Receiver.transferStart, marked_replicate_false]
  · intro k _ hk
    refine List.mem_map_of_mem (List.mem_map.mpr ⟨k, ?_, rfl⟩)
    rw [List.mem_range'_1]
    omega

/-- The whole batch arrives, and every ACK is lost. -/
theorem exists_overrun (hcfg : cfg.Compatible) (hmode : cfg.receiver.mode = .sr)
    (hpos : 0 < cfg.sender.npacket) {i : Nat} (hi : i ≤ cfg.sender.batch) :
    ∃ s, Overrun cfg i s := by
  induction i with
  | zero => exact exists_overrun_zero cfg hpos
  | succ i ih =>
    obtain ⟨s, hs⟩ := ih (by omega)
    exact hs.next hcfg hmode hi

/-- Then the first packet is lost for good, if the batch has more packets than the
receiver has slots. -/
theorem Overrun.lost (hcfg : cfg.Compatible) (hmode : cfg.receiver.mode = .sr)
    (hbatch : cfg.receiver.wsize < cfg.sender.batch) (h : Overrun cfg cfg.sender.batch s) :
    Lost cfg 0 s := by
  refine ⟨by rw [h.sender.2.2]; exact id, ?_, ?_⟩
  · rw [h.toSender]
    exact .nil
  · refine .inr (.inr (.inr ⟨h.receiver.1, fun hreaches => ?_⟩))
    have hle := hreaches hmode
    rw [h.shift hcfg] at hle
    omega

/-! ## The condition on the window sizes -/

/-- **When two window sizes work together.**  Let both programs run in one mode, in
selective repeat with a receiver's window of at most `2 ^ 30`.  Every run in which
both are in their loops can still finish the transfer if and only if, in selective
repeat, the receiver has a slot for every packet of the sender's largest batch. -/
theorem never_stuck_iff (cfg : Config) (hcfg : cfg.Compatible)
    (hisn : cfg.sender.isn = getRandomSeqnum) :
    (∀ s, (network cfg).Reachable s → s.sender.pc = .transfer → s.sender.fatal = false →
      s.receiver.pc = .transfer → s.receiver.fatal = false →
      ∃ t, (network cfg).Path (fun _ => True) s t ∧ t.sender.pc.leftTransfer) ↔
    (cfg.receiver.mode = .sr →
      min cfg.sender.wsize cfg.sender.npacket ≤ cfg.receiver.wsize) := by
  constructor
  · intro hall hmode
    by_contra hfew
    have hbatch : cfg.receiver.wsize < cfg.sender.batch := Nat.not_le.mp hfew
    have hpos : 0 < cfg.sender.npacket := by
      have hle : cfg.sender.batch ≤ cfg.sender.npacket := Nat.min_le_right _ _
      omega
    obtain ⟨s, hs⟩ := exists_overrun hcfg hmode hpos (Nat.le_refl _)
    obtain ⟨t, hpath, hleft⟩ :=
      hall s hs.reachable hs.sender.1 hs.sender.2.1 hs.receiver.1 hs.receiver.2
    exact (hs.lost hcfg hmode hbatch).dead_end hcfg hs.reachable hpos hpath hleft
  · intro hbatch s hs hpc hrunning hreceiver hreceives
    have hope := hopeful_of_batch_le hcfg hbatch hs hpc hrunning ⟨hreceiver, hreceives⟩
    have hzero : cfg.sender.start.toNat = 0 := by
      unfold SenderConfig.start
      rw [hisn]
      decide
    obtain ⟨t, hpath, _, _, hleft⟩ := hope.exists_done hcfg hzero
    exact ⟨t, hpath.mono fun _ _ => trivial, hleft⟩

/-- Two packets, a sender with two slots and a receiver with one. -/
def narrow : Config where
  sender := { isn := getRandomSeqnum, file := List.replicate (payloadMax + 1) 7, wsize := 2,
              wsize_pos := Nat.two_pos, mode := .sr, ldebug := false }
  receiver := { wsize := 1, wsize_pos := Nat.one_pos, mode := .sr, ldebug := false }

/-- Some run of these two gets stuck. -/
theorem never_stuck_narrow :
    ¬ ∀ s, (network narrow).Reachable s → s.sender.pc = .transfer → s.sender.fatal = false →
      s.receiver.pc = .transfer → s.receiver.fatal = false →
      ∃ t, (network narrow).Path (fun _ => True) s t ∧ t.sender.pc.leftTransfer := by
  rw [never_stuck_iff narrow ⟨rfl, fun _ => by decide⟩ rfl]
  intro hslots
  have htwo : 2 ≤ narrow.sender.npacket := by
    have hfile : narrow.sender.file.length = payloadMax + 1 := List.length_replicate
    have hsize : narrow.sender.fsize = payloadMax + 1 := by
      rw [SenderConfig.fsize, SenderConfig.buf, List.length_take, hfile]
      decide
    rw [SenderConfig.npacket, hsize]
    decide
  have hle := hslots rfl
  have hwsize : narrow.sender.wsize = 2 := rfl
  have hslot : narrow.receiver.wsize = 1 := rfl
  omega

end NetLabs.Rtp
