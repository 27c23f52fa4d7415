import NetLabs.Rtp.Transfer

/-!
# Two programs in different modes

Each program reads its mode from its own command line, and no packet carries it.
An ACK of selective repeat names a packet that is stored, and an ACK of go-back-N
the first one that is missing.

* `Vouched` says what is stored when a sender takes a packet as acknowledged by
  an ACK of the other mode, and `IsAck.vouches` that it is.
* `MixedInv` is the joint invariant of the two programs, with what the sender takes
  as acknowledged only vouched for.
* `mismatched_modes`: nothing wrong is stored, go-back-N never gets through to a
  receiver in selective repeat, and the other way round at most the last packet is
  missing from the file.
-/

namespace NetLabs.Rtp

open NetLabs.Lib

/-- What is stored when a sender takes packet `k` as acknowledged and the receiver
is in the other mode. -/
def Vouched (mode : Mode) (stored : Set Nat) (k : Nat) : Prop :=
  match mode with
  | .sr => Set.Iio k ⊆ stored
  | .gbn => ∃ j ∈ stored, k < j

theorem Vouched.mono {mode : Mode} {S T : Set Nat} {k : Nat} (h : Vouched mode S k)
    (hST : S ⊆ T) : Vouched mode T k := by
  cases mode with
  | sr =>
    intro i hi
    exact hST (h hi)
  | gbn =>
    obtain ⟨j, hj, hlt⟩ := h
    exact ⟨j, hST hj, hlt⟩

/-- An ACK that is read in the other mode is off by one packet: go-back-N reads
the name of a stored packet as that of the one before it, and selective repeat
takes the first missing packet for a stored one. -/
theorem IsAck.vouches {mode mode' : Mode} (hne : mode ≠ mode') {start : UInt32} {S : Set Nat}
    {p : Packet} {k n : Nat} (h : IsAck mode' start S p) (hS : S ⊆ Set.Iio n) (hn : n < 2 ^ 30)
    (hk : k < 2 ^ 30) (hnum : Sender.ackNumber mode p = seqnumAdd start k) {i : Nat}
    (hi : i ∈ Sender.covers mode k) : Vouched mode S i := by
  cases mode with
  | sr =>
    cases mode' with
    | sr => exact absurd rfl hne
    | gbn =>
      obtain ⟨m, hm, hseq⟩ := h
      have hmn : m ≤ n := by
        by_contra hlt
        exact Nat.lt_irrefl n (hS (hm (Nat.not_le.mp hlt)))
      have hread : Sender.ackNumber .sr p = seqnumAdd start m := by
        simp [Sender.ackNumber, hseq, Mode.toNat]
      have hsame : m = k := seqnumAdd_inj (by omega) (by omega) (by rw [← hread, hnum])
      have hik : i = k := hi
      rw [Vouched, hik, ← hsame]
      exact hm
  | gbn =>
    cases mode' with
    | gbn => exact absurd rfl hne
    | sr =>
      obtain ⟨j, hj, hseq⟩ := h
      have hjn : j < n := hS hj
      have hread : Sender.ackNumber .gbn p = seqnumAdd start ((j : Int) - 1) := by
        simp [Sender.ackNumber, hseq, Mode.toNat, Int.sub_eq_add_neg]
      have hnat := congrArg (fun a : UInt32 => (a.toNat : Int)) (hread.symm.trans hnum)
      simp only [seqnumAdd_toNat_int] at hnat
      have hik : i < k + 1 := hi
      exact ⟨j, hj, by omega⟩

/-! ## The joint invariant -/

/-- The two programs run in different modes, and in selective repeat the
receiver's window is at most `2 ^ 30`. -/
structure Config.Mixed (cfg : Config) : Prop where
  mode : cfg.sender.mode ≠ cfg.receiver.mode
  wsize : cfg.receiver.mode = .sr → cfg.receiver.wsize ≤ 2 ^ 30

/-- Both windows, the file buffer, and what is in flight, for any two modes. -/
structure MixedInv (cfg : Config) (s : State) : Prop where
  lifecycle : Lifecycle cfg s
  sender : s.sender.WF cfg.sender cfg.sender.start
  receiver : s.receiver.WF cfg.receiver cfg.sender.start cfg.sender.payload cfg.sender.npacket
  stored_lt : s.receiver.stored ⊆ Set.Iio s.sender.sentCount
  data : InFlight s.toReceiver (IsData cfg.sender s.sender.sentCount)
  acks : InFlight s.toSender fun p => p.flags = rtpAck →
    IsAck cfg.receiver.mode cfg.sender.start s.receiver.stored p
  acked : ∀ k ∈ s.sender.acked, Vouched cfg.sender.mode s.receiver.stored k

variable {cfg : Config} {s t : State} {e : Event}

/-- The joint invariant holds initially. -/
theorem mixedInv_start (cfg : Config) : MixedInv cfg (State.start cfg) := by
  have h := dataInv_start cfg
  exact {
    lifecycle := h.lifecycle
    sender := h.sender
    receiver := h.receiver
    stored_lt := h.stored_lt
    data := h.data
    acks := .nil
    acked := by
      rw [State.start, Sender.start_eq]
      exact fun k hk => hk.elim }

/-- A step of the sender: what it newly takes as acknowledged is vouched for. -/
theorem MixedInv.sender_step (hcfg : cfg.Mixed) (h : MixedInv cfg s) {input : Input}
    {c : List Frame} {x : Sender} {sent : List Packet} (hreceives : Receives s.toSender input c)
    (hstep : s.sender.step cfg.sender input = some (x, sent)) :
    Sender.DataStep cfg.sender cfg.sender.start s.sender input x sent ∧
      ∀ k ∈ x.acked, Vouched cfg.sender.mode s.receiver.stored k := by
  have hdata := Sender.step_data hstep cfg.sender.isSeqnum_start
    (fun hpc => h.lifecycle.senderSqn (Or.inr hpc)) h.sender
  refine ⟨hdata, ?_⟩
  rcases hdata.acked with hsame | ⟨p, k, rfl, hflags, hk, hnum, hset⟩
  · rw [hsame]
    exact h.acked
  · have hle := h.sender.sentCount_le
    have hn := cfg.sender.npacket_le
    have hack := h.acks.received hreceives hflags
    rw [hset]
    rintro i (hi | hi)
    · exact h.acked i hi
    · exact hack.vouches hcfg.mode h.stored_lt (by omega) (by omega) hnum hi

/-- A step of the receiver: what it newly stores has been sent. -/
theorem MixedInv.receiver_step (hcfg : cfg.Mixed) (h : MixedInv cfg s) {input : Input}
    {c : List Frame} {x : Receiver} {sent : List Packet}
    (hreceives : Receives s.toReceiver input c)
    (hstep : s.receiver.step cfg.receiver input = some (x, sent)) :
    Receiver.DataStep cfg.receiver cfg.sender.start cfg.sender.payload cfg.sender.npacket
        s.receiver input x sent ∧ x.stored ⊆ Set.Iio s.sender.sentCount := by
  have hle := h.sender.sentCount_le
  have hn := cfg.sender.npacket_le
  have hreceived : ∀ p, input = .recv (.ok p) → p.flags = 0 →
      ∃ k < s.sender.sentCount, p = cfg.sender.dataPacket (seqnumAdd cfg.sender.start k) k := by
    rintro p rfl
    exact h.data.received hreceives
  have hdata := Receiver.step_data hstep cfg.sender.isSeqnum_start hcfg.wsize
    cfg.sender.blocked_payload hn (fun hpc => h.lifecycle.receiverSqn (Or.inr hpc))
    (fun p hp hflags => by
      obtain ⟨k, hk, rfl⟩ := hreceived p hp hflags
      exact ⟨k, by omega, rfl, rfl⟩) h.receiver
  refine ⟨hdata, ?_⟩
  rcases hdata.stored with hsame | ⟨p, k, hp, hflags, hseq, hk, hset⟩
  · rw [hsame]
    exact h.stored_lt
  · obtain ⟨j, hj, rfl⟩ := hreceived p hp hflags
    have heq : j = k := seqnumAdd_inj (by omega) (by omega) hseq
    rw [hset]
    exact Set.insert_subset (heq ▸ hj) h.stored_lt

/-- Every step keeps the joint invariant. -/
theorem mixedInv_step (hcfg : cfg.Mixed) (h : MixedInv cfg s) (hstep : Step cfg s e t) :
    MixedInv cfg t := by
  have hlifecycle := lifecycle_step h.lifecycle hstep
  cases hstep with
  | sender hreceives hstep =>
    obtain ⟨hdata, hacked⟩ := h.sender_step hcfg hreceives hstep
    have hmono := hdata.sentCount_le
    exact {
      lifecycle := hlifecycle
      sender := hdata.wf
      receiver := h.receiver
      stored_lt := h.stored_lt.trans (Set.Iio_subset_Iio hmono)
      data := (h.data.mono fun p hp => hp.mono hmono).send hdata.data
      acks := h.acks.receives hreceives
      acked := hacked }
  | receiver hreceives hstep =>
    obtain ⟨hdata, hstored⟩ := h.receiver_step hcfg hreceives hstep
    have hmono := hdata.stored_mono
    exact {
      lifecycle := hlifecycle
      sender := h.sender
      receiver := hdata.wf
      stored_lt := hstored
      data := h.data.receives hreceives
      acks := (h.acks.mono fun p hp hflags => (hp hflags).mono hmono).send hdata.acks
      acked := fun k hk => (h.acked k hk).mono hmono }
  | toReceiver hchannel =>
    exact { h with lifecycle := hlifecycle, data := h.data.channel hchannel }
  | toSender hchannel =>
    exact { h with lifecycle := hlifecycle, acks := h.acks.channel hchannel }

theorem mixedInv_reachable (hcfg : cfg.Mixed) (hs : (network cfg).Reachable s) : MixedInv cfg s :=
  hs.invariant (P := MixedInv cfg)
    (by
      rintro _ rfl
      exact mixedInv_start cfg)
    (fun _ _ _ _ h hstep => mixedInv_step hcfg h hstep)

/-! ## What the receiver ends up with -/

/-- A sender that has left the transfer took every packet as acknowledged. -/
theorem MixedInv.vouched_of_left (h : MixedInv cfg s) (hleft : s.sender.pc.leftTransfer) {k : Nat}
    (hk : k < cfg.sender.npacket) : Vouched cfg.sender.mode s.receiver.stored k := by
  have hshift := (h.sender.finished hleft).2
  apply h.acked
  rw [h.sender.acked_eq]
  exact Iio_subset_marked _ _ (hshift ▸ hk)

/-- Go-back-N waits for an ACK of the packet behind the last one. -/
theorem MixedInv.npacket_eq_zero (h : MixedInv cfg s) (hmode : cfg.sender.mode = .gbn)
    (hleft : s.sender.pc.leftTransfer) : cfg.sender.npacket = 0 := by
  by_contra hne
  have hlast := h.vouched_of_left hleft (k := cfg.sender.npacket - 1) (by omega)
  rw [hmode] at hlast
  obtain ⟨j, hj, hlt⟩ := hlast
  have hsent : j < s.sender.sentCount := h.stored_lt hj
  have hle := h.sender.sentCount_le
  omega

/-- What is stored when the sender has left the transfer. -/
theorem MixedInv.stored_of_left (hcfg : cfg.Mixed) (h : MixedInv cfg s)
    (hleft : s.sender.pc.leftTransfer) (hentered : s.receiver.pc.enteredTransfer) :
    ∃ m, cfg.sender.npacket ≤ m + 1 ∧ m ≤ cfg.sender.npacket ∧ s.receiver.stored = Set.Iio m := by
  have hstores := h.receiver.stores hentered
  cases hmode : cfg.receiver.mode with
  | sr =>
    have hgbn : cfg.sender.mode = .gbn := by
      cases hsender : cfg.sender.mode with
      | sr => exact absurd (hsender.trans hmode.symm) hcfg.mode
      | gbn => rfl
    have hzero := h.npacket_eq_zero hgbn hleft
    refine ⟨0, by omega, by omega, ?_⟩
    rw [h.receiver.stored_eq]
    exact (hzero ▸ hstores.stored_le).antisymm fun k hk => absurd hk (Nat.not_lt_zero k)
  | gbn =>
    have hsr : cfg.sender.mode = .sr := by
      cases hsender : cfg.sender.mode with
      | sr => rfl
      | gbn => exact absurd (hsender.trans hmode.symm) hcfg.mode
    have hstored := h.receiver.stored_eq.trans (hstores.marked_gbn hmode)
    refine ⟨s.receiver.shift, ?_, hstores.shift_le, hstored⟩
    by_contra hlt
    have hlast := h.vouched_of_left hleft (k := s.receiver.shift + 1) (by omega)
    rw [hsr, hstored] at hlast
    exact Nat.lt_irrefl _ (hlast (Nat.lt_succ_self _))

/-- The file that the receiver writes once the sender has left the transfer. -/
theorem MixedInv.file_of_left (hcfg : cfg.Mixed) (h : MixedInv cfg s)
    (hsender : s.sender.pc.leftTransfer) (hreceiver : s.receiver.pc.leftTransfer) :
    ∃ m, cfg.sender.npacket ≤ m + 1 ∧ m ≤ cfg.sender.npacket ∧
      s.receiver.file = some ((joinBlocks cfg.sender.payload m).map some) := by
  have hentered : s.receiver.pc.enteredTransfer := by
    cases hpc : s.receiver.pc <;>
      simp_all [ReceiverPc.enteredTransfer, ReceiverPc.leftTransfer]
  obtain ⟨m, hlow, hle, hstored⟩ := h.stored_of_left hcfg hsender hentered
  have hblocked := cfg.sender.blocked_payload
  have hfirst : Blocked payloadMax cfg.sender.payload m :=
    ⟨fun k hk => hblocked.le k (by omega), fun k hk => hblocked.full k (by omega)⟩
  rw [h.receiver.stored_eq] at hstored
  have hholds := (h.receiver.stores hentered).holds
  have hextent := (h.receiver.stores hentered).extent
  rw [hstored] at hholds hextent
  exact ⟨m, hlow, hle, by
    rw [h.receiver.file hreceiver, read_of_holdsBlocks hfirst hholds hextent]⟩

/-- Two programs that run in different modes.  Whatever the receiver stores is right.
A sender in go-back-N never leaves the transfer of a file that has any data.  When
either program returns, the receiver has written the file up to its last packet, and
that one may be missing. -/
theorem mismatched_modes (cfg : Config) (hcfg : cfg.Mixed) {s : State}
    (hs : (network cfg).Reachable s) :
    HoldsBlocks payloadMax cfg.sender.payload s.receiver.buf s.receiver.stored ∧
      (cfg.sender.mode = .gbn → s.sender.pc.leftTransfer → cfg.sender.npacket = 0) ∧
      (s.sender.pc = .closed ∨ s.receiver.pc = .closed →
        ∃ m, cfg.sender.npacket ≤ m + 1 ∧ m ≤ cfg.sender.npacket ∧
          s.receiver.file = some ((joinBlocks cfg.sender.payload m).map some)) := by
  have h := mixedInv_reachable hcfg hs
  have hlife := lifecycle_reachable hs
  refine ⟨?_, h.npacket_eq_zero, ?_⟩
  · by_cases hentered : s.receiver.pc.enteredTransfer
    · rw [h.receiver.stored_eq]
      exact (h.receiver.stores hentered).holds
    · rw [Receiver.stored_of_not_entered hentered]
      exact holdsBlocks_empty
  · rintro (hpc | hpc)
    · exact h.file_of_left hcfg (by rw [hpc]; trivial) (hlife.receiverLeft hpc)
    · have hpast : s.receiver.pc.pastFinWait := by rw [hpc]; trivial
      exact h.file_of_left hcfg (hlife.senderLeft hpast)
        (ReceiverPc.leftTransfer_of_pastFinWait hpast)

/-- A sender in selective repeat and a receiver in go-back-N, with windows of two
packets. -/
def crossed (file : List UInt8) : Config where
  sender := { isn := getRandomSeqnum, file, wsize := 2, wsize_pos := Nat.two_pos, mode := .sr,
              ldebug := false }
  receiver := { wsize := 2, wsize_pos := Nat.two_pos, mode := .gbn, ldebug := false }

theorem crossed_npacket {file : List UInt8} (hmore : payloadMax < file.length)
    (hless : file.length ≤ 2 * payloadMax) : (crossed file).sender.npacket = 2 := by
  have hbuf : (crossed file).sender.buf = file := by
    apply List.take_of_length_le
    show file.length ≤ maxbuf
    unfold payloadMax at hless
    unfold maxbuf
    omega
  rw [SenderConfig.npacket, SenderConfig.fsize, hbuf]
  unfold payloadMax at *
  omega

/-- The sender takes the name of the first missing packet for an acknowledgement. -/
theorem crossed_slides (file : List UInt8) (k : Nat) (hk : k < 2) :
    Sender.step (crossed file).sender
        ⟨.transfer, false, 0, 2, UInt32.ofNat k, k, [false, false]⟩
        (.recv (.ok (controlPacket (UInt32.ofNat k) rtpAck))) =
      some (Sender.transferLoop (crossed file).sender
        ⟨.transfer, false, 0, 2, UInt32.ofNat (k + 1), k + 1, [false, false]⟩) := by
  have hread : seqnumAdd (UInt32.ofNat k) (-((Mode.sr.toNat ^^^ 1 : Nat) : Int)) =
      UInt32.ofNat k := by
    revert k
    decide +kernel
  have hin : seqnumIsIn (UInt32.ofNat k) (UInt32.ofNat k) 2 = true := by
    revert k
    decide +kernel
  have hmov : updateWindow [false, false] 2 (sqnDis (UInt32.ofNat k) (UInt32.ofNat k)) =
      (1, [false, false]) := by
    revert k
    decide +kernel
  have hbase : seqnumAdd (UInt32.ofNat k) 1 = UInt32.ofNat (k + 1) := by
    revert k
    decide +kernel
  have hmode : (crossed file).sender.mode = .sr := rfl
  have hwsize : (crossed file).sender.wsize = 2 := rfl
  rw [Sender.step_transfer _ rfl rfl]
  simp only [Sender.transferRecv, Sender.acknowledge, controlPacket, hmode, hwsize, hread, hin, hmov,
    Nat.cast_one, hbase]
  rfl

theorem crossed_transferStart {file : List UInt8} (hcount : (crossed file).sender.npacket = 2) :
    Sender.transferStart (crossed file).sender
        { pc := .established, fatal := false, tries := logDebugTries false 0,
          sqn := seqnumAdd getRandomSeqnum 1, wbase := getRandomSeqnum, shift := 0, window := [] } =
      (⟨.transfer, false, 0, 2, 0, 0, [false, false]⟩,
        [(crossed file).sender.dataPacket 0 0, (crossed file).sender.dataPacket 1 1]) := by
  have hzero : seqnumAdd getRandomSeqnum 1 = 0 := by decide +kernel
  have hfits : ∀ i < 2, i < (crossed file).sender.wsize ∧ i + 0 < (crossed file).sender.npacket :=
    fun i hi => ⟨hi, by omega⟩
  have hbatch : Sender.sendBatch (crossed file).sender 0 2 0 0 =
      (2, [(crossed file).sender.dataPacket 0 0, (crossed file).sender.dataPacket 1 1]) := by
    rw [Sender.sendBatch, if_pos (hfits 0 (by decide)), Sender.sendBatch,
      if_pos (hfits 1 (by decide)), Sender.sendBatch]
    rfl
  have hmore : 0 < (crossed file).sender.npacket := by omega
  rw [Sender.transferStart, hzero, Sender.transferLoop, if_pos hmore, if_pos rfl]
  simp only [hcount, Nat.sub_zero, hbatch]
  rfl

/-- When the second of two packets comes first, it is answered with the name of the
first, and the first with the name of the second. -/
theorem crossed_answers {file : List UInt8} (hcount : (crossed file).sender.npacket = 2) :
    ∃ z : Receiver, (network (crossed file)).Reachable
        { sender := ⟨.transfer, false, 0, 2, 0, 0, [false, false]⟩
          receiver := z
          toReceiver := []
          toSender := [.intact (controlPacket 0 rtpAck), .intact (controlPacket 1 rtpAck)] } ∧
      z.pc = .transfer ∧ z.fatal = false ∧ marked z.shift z.window = Set.Iio 1 := by
  let first := (crossed file).sender.dataPacket 0 0
  let second := (crossed file).sender.dataPacket 1 1
  have hone : (1 : UInt32) ≠ 0 := by decide
  have h := transfer_reachable (crossed file) ⟨.transfer, false, 0, 2, 0, 0, [false, false]⟩
    [first, second] (crossed_transferStart hcount)
  generalize hy : Receiver.transferStart (crossed file).receiver _ = y at h
  have hpc : y.pc = .transfer := by rw [← hy]; rfl
  have hfatal : y.fatal = false := by rw [← hy]; rfl
  have hsqn : y.sqn = 0 := by
    rw [← hy]
    show seqnumAdd getRandomSeqnum 1 = 0
    decide +kernel
  have hshift : y.shift = 0 := by rw [← hy]; rfl
  have hwindow : y.window = List.replicate 2 false := by rw [← hy]; rfl
  have hahead : Receiver.recvData (crossed file).receiver y second =
      (y, [controlPacket 0 rtpAck]) := by
    have hskip : ¬ second.seqNum = y.sqn := hsqn ▸ hone
    show Receiver.recvGbn y second = _
    rw [Receiver.recvGbn, if_neg hskip, hsqn]
  have hnext : Receiver.recvData (crossed file).receiver y first =
      (Receiver.acceptGbn y first, [controlPacket 1 rtpAck]) := by
    have htake : first.seqNum = y.sqn := hsqn.symm
    have hnumber : (Receiver.acceptGbn y first).sqn = 1 := by
      rw [Receiver.acceptGbn, hsqn]
      rfl
    show Receiver.recvGbn y first = _
    rw [Receiver.recvGbn, if_pos htake, hnumber]
  have hne : Frame.intact first ≠ Frame.intact second := by
    intro heq
    exact hone (congrArg Packet.seqNum (Frame.intact.inj heq)).symm
  have hsecond : Receives [.intact first, .intact second] (.recv (.ok second))
      [.intact first] := by
    have hframe := Receives.frame (List.mem_cons_of_mem (.intact first)
      (List.mem_singleton_self (Frame.intact second)))
    rwa [List.erase_cons_tail (by simpa using hne), List.erase_cons_head] at hframe
  replace h := reachable_receiver h hsecond
    ((Receiver.step_transfer_data _ hpc hfatal rfl).trans (by rw [hahead]))
  replace h := reachable_receiver h (.single _)
    ((Receiver.step_transfer_data _ hpc hfatal rfl).trans (by rw [hnext]))
  refine ⟨Receiver.acceptGbn y first, h, hpc, hfatal, ?_⟩
  simp only [Receiver.acceptGbn, hshift, hwindow]
  exact marked_replicate_false 1 2

/-- The sender has both answers and leaves, and the second packet is nowhere. -/
theorem crossed_left {file : List UInt8} (hcount : (crossed file).sender.npacket = 2) :
    ∃ z : Receiver, (network (crossed file)).Reachable
        { sender := ⟨.transferred, false, 0, 2, 2, 2, [false, false]⟩
          receiver := z
          toReceiver := []
          toSender := [] } ∧
      z.pc = .transfer ∧ z.fatal = false ∧ marked z.shift z.window = Set.Iio 1 := by
  obtain ⟨z, h, hz⟩ := crossed_answers hcount
  have hstay : Sender.transferLoop (crossed file).sender
      ⟨.transfer, false, 0, 2, 1, 1, [false, false]⟩ =
      (⟨.transfer, false, 0, 2, 1, 1, [false, false]⟩, []) := by
    have hmore : 1 < (crossed file).sender.npacket := by omega
    have hne : (1 : UInt32) ≠ 2 := by decide
    rw [Sender.transferLoop, if_pos hmore, if_neg hne]
  have hleave : Sender.transferLoop (crossed file).sender
      ⟨.transfer, false, 0, 2, 2, 2, [false, false]⟩ =
      (⟨.transferred, false, 0, 2, 2, 2, [false, false]⟩, []) := by
    have hdone : ¬ 2 < (crossed file).sender.npacket := by omega
    rw [Sender.transferLoop, if_neg hdone]
  have hpair : Receives [.intact (controlPacket 0 rtpAck), .intact (controlPacket 1 rtpAck)]
      (.recv (.ok (controlPacket 0 rtpAck))) [.intact (controlPacket 1 rtpAck)] := by
    have hframe := Receives.frame (List.mem_cons_self (a := Frame.intact (controlPacket 0 rtpAck))
      (l := [.intact (controlPacket 1 rtpAck)]))
    rwa [List.erase_cons_head] at hframe
  replace h := reachable_sender h hpair
    ((crossed_slides file 0 (by decide)).trans (congrArg some hstay))
  replace h := reachable_sender h (.single _)
    ((crossed_slides file 1 (by decide)).trans (congrArg some hleave))
  exact ⟨z, h, hz⟩

/-- Both programs return. -/
theorem crossed_closed {file : List UInt8} (hcount : (crossed file).sender.npacket = 2) :
    ∃ s, (network (crossed file)).Reachable s ∧ s.sender.pc = .closed ∧
      s.receiver.pc = .closed ∧ s.receiver.stored = Set.Iio 1 := by
  obtain ⟨z, h, hpc, hfatal, hstored⟩ := crossed_left hcount
  have hfin : Sender.step (crossed file).sender ⟨.transferred, false, 0, 2, 2, 2, [false, false]⟩
      .run = some (⟨.finSent, false, 0, 2, 2, 2, [false, false]⟩, [controlPacket 2 rtpFin]) := rfl
  have hfinAck : Sender.step (crossed file).sender ⟨.finSent, false, 0, 2, 2, 2, [false, false]⟩
      (.recv (.ok (controlPacket 2 (rtpAck ||| rtpFin)))) =
      some (⟨.closed, false, 0, 2, 2, 2, [false, false]⟩, []) := rfl
  replace h := reachable_sender h .run hfin
  replace h := reachable_receiver h .timeout (Receiver.step_transfer_timeout _ hpc hfatal)
  replace h := reachable_receiver h (.single _)
    (Receiver.step_fin (x := z.transferEnd) _ rfl hfatal 2)
  replace h := reachable_receiver h .timeout
    (Receiver.step_close_timeout (x := { z.transferEnd with pc := .finReplied, sqn := 2 }) _ rfl
      hfatal)
  exact ⟨_, reachable_sender h (.single _) hfinAck, rfl, rfl, hstored⟩

/-- A file that needs two packets. -/
theorem mismatched_modes_crossed :
    ∃ file : List UInt8, ∃ s, (network (crossed file)).Reachable s ∧ s.sender.pc = .closed ∧
      s.receiver.stored = Set.Iio 1 ∧
      ∃ m, 2 ≤ m + 1 ∧ m ≤ 2 ∧
        s.receiver.file = some ((joinBlocks (crossed file).sender.payload m).map some) := by
  have hlength : (List.replicate (payloadMax + 1) (7 : UInt8)).length = payloadMax + 1 :=
    List.length_replicate
  have hmore : payloadMax < (List.replicate (payloadMax + 1) (7 : UInt8)).length := by omega
  have hless : (List.replicate (payloadMax + 1) (7 : UInt8)).length ≤ 2 * payloadMax := by
    rw [hlength]
    decide
  have hcount := crossed_npacket hmore hless
  obtain ⟨s, hs, hsender, _, hstored⟩ := crossed_closed hcount
  have hmixed : (crossed (List.replicate (payloadMax + 1) 7)).Mixed := ⟨nofun, nofun⟩
  have hwritten := (mismatched_modes _ hmixed hs).2.2 (.inl hsender)
  rw [hcount] at hwritten
  exact ⟨_, s, hs, hsender, hstored, hwritten⟩

end NetLabs.Rtp
