import NetLabs.Lib.Delivery
import NetLabs.Rtp.ReceiverWindow

/-!
# Both windows and the packets between them

`DataInv` joins the window invariants of the two programs with every data
packet and every ACK in flight, for two programs of the same mode.  The network
then refines the abstract delivery of `npacket` blocks (`simulates_delivery`),
and the safety of the transfer is the safety of the delivery.
-/

namespace NetLabs.Rtp

open NetLabs.Lib

/-! ## The segments of the file -/

namespace SenderConfig

variable (cfg : SenderConfig)

theorem isSeqnum_start : IsSeqnum cfg.start := isSeqnum_seqnumAdd _ _

/-- Every payload but the last is full. -/
theorem blocked_payload : Blocked payloadMax cfg.payload cfg.npacket := by
  constructor
  · intro k _
    have htail : cfg.tsize < payloadMax := Nat.mod_lt _ (by simp [payloadMax])
    simp only [payload, dsize, List.length_take, List.length_drop]
    split <;> omega
  · intro k hk
    have hsize : cfg.buf.length = cfg.fsize := rfl
    have hcount : cfg.npacket = (cfg.fsize + payloadMax - 1) / payloadMax := rfl
    simp only [payload, dsize, List.length_take, List.length_drop, hsize]
    rw [if_neg (by omega)]
    simp only [payloadMax] at *
    omega

/-- The payloads that the sender assigns to its packets, joined in order. -/
def assigned : List UInt8 := joinBlocks cfg.payload cfg.npacket

end SenderConfig

/-! ## The joint invariant -/

/-- Both programs run in the same mode, and in selective repeat the receiver's
window is at most `2 ^ 30`. -/
structure Config.Compatible (cfg : Config) : Prop where
  mode : cfg.sender.mode = cfg.receiver.mode
  wsize : cfg.receiver.mode = .sr → cfg.receiver.wsize ≤ 2 ^ 30

/-- A data packet in flight is one of those that the sender has sent. -/
def IsData (cfg : SenderConfig) (sent : Nat) (p : Packet) : Prop :=
  p.flags = 0 → ∃ k < sent, p = cfg.dataPacket (seqnumAdd cfg.start k) k

/-- Both windows, the file buffer, and what is in flight. -/
structure DataInv (cfg : Config) (s : State) : Prop where
  lifecycle : Lifecycle cfg s
  sender : s.sender.WF cfg.sender cfg.sender.start
  receiver : s.receiver.WF cfg.receiver cfg.sender.start cfg.sender.payload cfg.sender.npacket
  stored_lt : s.receiver.stored ⊆ Set.Iio s.sender.sentCount
  data : InFlight s.toReceiver (IsData cfg.sender s.sender.sentCount)
  acks : InFlight s.toSender fun p => p.flags = rtpAck →
    IsAck cfg.sender.mode cfg.sender.start s.receiver.stored p

variable {cfg : Config} {s t : State} {e : Event}

theorem Sender.WF.sentCount_le {cfg : SenderConfig} {start : UInt32} {x : Sender}
    (h : x.WF cfg start) : x.sentCount ≤ cfg.npacket := by
  by_cases hentered : x.pc.enteredTransfer
  · rw [Sender.sentCount_of_entered hentered]
    exact (h.aligned hentered).sent_le
  · rw [Sender.sentCount_of_not_entered hentered]
    exact Nat.zero_le _

theorem IsData.mono {cfg : SenderConfig} {m n : Nat} {p : Packet} (h : IsData cfg m p)
    (hle : m ≤ n) : IsData cfg n p := by
  intro hflags
  obtain ⟨k, hk, hp⟩ := h hflags
  exact ⟨k, by omega, hp⟩

/-- A step of the sender: its window keeps its invariant, and what it takes as
newly acknowledged is stored. -/
theorem DataInv.sender_step (h : DataInv cfg s) {input : Input} {c : List Frame} {x : Sender}
    {sent : List Packet} (hreceives : Receives s.toSender input c)
    (hstep : s.sender.step cfg.sender input = some (x, sent)) :
    Sender.DataStep cfg.sender cfg.sender.start s.sender input x sent ∧
      ∃ covered ⊆ s.receiver.stored, x.acked = s.sender.acked ∪ covered := by
  have hdata := Sender.step_data hstep cfg.sender.isSeqnum_start
    (fun hpc => h.lifecycle.senderSqn (Or.inr hpc)) h.sender
  refine ⟨hdata, ?_⟩
  rcases hdata.acked with hsame | ⟨p, k, rfl, hflags, hk, hnum, hset⟩
  · exact ⟨∅, Set.empty_subset _, by rw [hsame, Set.union_empty]⟩
  · have hle := h.sender.sentCount_le
    have hn := cfg.sender.npacket_le
    have hack := h.acks.received hreceives hflags
    exact ⟨_, hack.covers_subset h.stored_lt (by omega) (by omega) hnum, hset⟩

/-- A step of the receiver: its buffer keeps its invariant, and what it newly
stores has been sent. -/
theorem DataInv.receiver_step (hcfg : cfg.Compatible) (h : DataInv cfg s) {input : Input}
    {c : List Frame} {x : Receiver} {sent : List Packet}
    (hreceives : Receives s.toReceiver input c)
    (hstep : s.receiver.step cfg.receiver input = some (x, sent)) :
    Receiver.DataStep cfg.receiver cfg.sender.start cfg.sender.payload cfg.sender.npacket
        s.receiver input x sent ∧
      (x.stored = s.receiver.stored ∨
        ∃ k < s.sender.sentCount, x.stored = insert k s.receiver.stored) := by
  have hle := h.sender.sentCount_le
  have hn := cfg.sender.npacket_le
  have hreceived : ∀ p, input = .recv (.ok p) → p.flags = 0 →
      ∃ k < s.sender.sentCount, p = cfg.sender.dataPacket (seqnumAdd cfg.sender.start k) k := by
    rintro p rfl
    exact h.data.received hreceives
  have hdata := Receiver.step_data hstep cfg.sender.isSeqnum_start hcfg.wsize
    cfg.sender.blocked_payload hn (fun hpc => h.lifecycle.receiverSqn (Or.inr hpc))
    (fun p hp hflags => by
      obtain ⟨k, hk, rfl⟩ := hreceived p hp hflags
      exact ⟨k, by omega, rfl, rfl⟩) h.receiver
  refine ⟨hdata, ?_⟩
  rcases hdata.stored with hsame | ⟨p, k, hp, hflags, hseq, hk, hset⟩
  · exact Or.inl hsame
  · obtain ⟨j, hj, rfl⟩ := hreceived p hp hflags
    have heq : j = k := seqnumAdd_inj (by omega) (by omega) hseq
    subst heq
    exact Or.inr ⟨j, hj, hset⟩

/-- The joint invariant holds initially. -/
theorem dataInv_start (cfg : Config) : DataInv cfg (State.start cfg) where
  lifecycle := lifecycle_start cfg
  sender := by
    simp only [State.start, Sender.start_eq]
    exact .of_not_entered (by simp [SenderPc.enteredTransfer]) rfl rfl
  receiver := .of_not_entered (by simp [State.start, Receiver.start, ReceiverPc.enteredTransfer])
    rfl rfl
  stored_lt := by
    simp [State.start, Receiver.start, Receiver.stored]
  data := by
    have hsent : ∀ p ∈ (Sender.start cfg.sender).2,
        IsData cfg.sender (State.start cfg).sender.sentCount p := by
      rw [Sender.start_eq]
      simp only [List.mem_singleton, forall_eq]
      exact fun hflags => absurd hflags (show rtpSyn ≠ 0 by decide)
    exact InFlight.nil.send hsent
  acks := .nil

/-- Every step keeps the joint invariant. -/
theorem dataInv_step (hcfg : cfg.Compatible) (h : DataInv cfg s) (hstep : Step cfg s e t) :
    DataInv cfg t := by
  have hlifecycle := lifecycle_step h.lifecycle hstep
  cases hstep with
  | @sender _ c x sent hreceives hstep =>
    obtain ⟨hdata, _⟩ := h.sender_step hreceives hstep
    have hmono := hdata.sentCount_le
    exact {
      lifecycle := hlifecycle
      sender := hdata.wf
      receiver := h.receiver
      stored_lt := h.stored_lt.trans (Set.Iio_subset_Iio hmono)
      data := (h.data.mono fun p hp => hp.mono hmono).send hdata.data
      acks := h.acks.receives hreceives }
  | receiver hreceives hstep =>
    obtain ⟨hdata, hstored⟩ := h.receiver_step hcfg hreceives hstep
    have hmono := hdata.stored_mono
    exact {
      lifecycle := hlifecycle
      sender := h.sender
      receiver := hdata.wf
      stored_lt := by
        rcases hstored with hsame | ⟨k, hk, hset⟩
        · rw [hsame]
          exact h.stored_lt
        · rw [hset]
          exact Set.insert_subset hk h.stored_lt
      data := h.data.receives hreceives
      acks := (h.acks.mono fun p hp hflags => (hp hflags).mono hmono).send
        (fun q hq hflags => hcfg.mode ▸ hdata.acks q hq hflags) }
  | toReceiver hchannel =>
    exact { h with lifecycle := hlifecycle, data := h.data.channel hchannel }
  | toSender hchannel =>
    exact { h with lifecycle := hlifecycle, acks := h.acks.channel hchannel }

/-! ## Refinement of the abstract delivery -/

/-- The delivery that a network state stands for. -/
def State.delivery (s : State) : Delivery.State where
  sent := s.sender.sentCount
  stored := s.receiver.stored
  acked := s.sender.acked

/-- One step of the network is at most one sending and one acknowledging step
of the delivery, or one storing step. -/
theorem DataInv.delivery_path (hcfg : cfg.Compatible) (h : DataInv cfg s)
    (hstep : Step cfg s e t) :
    (Delivery.system cfg.sender.npacket).Path (fun _ => True) s.delivery t.delivery := by
  cases hstep with
  | @sender _ c x sent hreceives hstep =>
    obtain ⟨hdata, covered, hcovered, hset⟩ := h.sender_step hreceives hstep
    have hsend : Delivery.Step cfg.sender.npacket s.delivery .send
        { s.delivery with sent := x.sentCount } := .send hdata.sentCount_le hdata.wf.sentCount_le
    have hack := Delivery.Step.acknowledge (n := cfg.sender.npacket)
      (s := { s.delivery with sent := x.sentCount }) hcovered
    have hpath : (Delivery.system cfg.sender.npacket).Path (fun _ => True) _ _ :=
      (System.Path.single trivial hsend).tail trivial hack
    simpa only [State.delivery, hset] using hpath
  | @receiver _ c x sent hreceives hstep =>
    obtain ⟨_, hsame | ⟨k, hk, hset⟩⟩ := h.receiver_step hcfg hreceives hstep
    · simpa only [State.delivery, hsame] using System.Path.refl s.delivery
    · have hstore := Delivery.Step.store (n := cfg.sender.npacket) (s := s.delivery) hk
      have hpath : (Delivery.system cfg.sender.npacket).Path (fun _ => True) _ _ :=
        .single trivial hstore
      simpa only [State.delivery, hset] using hpath
  | toReceiver hchannel => exact .refl _
  | toSender hchannel => exact .refl _

/-- States from which runs can start: the joint invariant holds and nothing is
sent yet. -/
def Config.Starts (cfg : Config) (init : State → Prop) : Prop :=
  ∀ s, init s → DataInv cfg s ∧ (Delivery.system cfg.sender.npacket).init s.delivery

variable {init : State → Prop}

theorem starts_network (cfg : Config) : cfg.Starts (· = State.start cfg) := by
  rintro s rfl
  refine ⟨dataInv_start cfg, ?_⟩
  simp only [Delivery.system, State.delivery, State.start, Sender.start_eq]
  exact ⟨rfl, rfl, rfl⟩

theorem dataInv_reachable (hcfg : cfg.Compatible) (hinit : cfg.Starts init)
    (hs : (networkFrom cfg init).Reachable s) : DataInv cfg s :=
  hs.invariant (P := DataInv cfg) (fun s h => (hinit s h).1)
    (fun _ _ _ _ h hstep => dataInv_step hcfg h hstep)

/-- The runs refine the delivery of `npacket` blocks. -/
theorem simulates_delivery (hcfg : cfg.Compatible) (hinit : cfg.Starts init) :
    Simulation (networkFrom cfg init) (Delivery.system cfg.sender.npacket)
      (fun s d => d = s.delivery) where
  init s h := ⟨s.delivery, (hinit s h).2, rfl⟩
  step s e t d hreach hR hstep := by
    subst hR
    have h := dataInv_reachable hcfg hinit hreach
    exact ⟨t.delivery, h.delivery_path hcfg hstep, rfl⟩

/-- What the sender takes as acknowledged is stored, and what is stored was
sent. -/
theorem delivery_safe (hcfg : cfg.Compatible) (hinit : cfg.Starts init)
    (hs : (networkFrom cfg init).Reachable s) :
    Delivery.Safe cfg.sender.npacket s.delivery := by
  obtain ⟨d, hd, rfl⟩ := (simulates_delivery hcfg hinit).reachable hs
  exact Delivery.safe_reachable hd

/-! ## What the refinement says about the windows -/

theorem Sender.WF.acked_eq {cfg : SenderConfig} {start : UInt32} {x : Sender}
    (h : x.WF cfg start) : x.acked = marked x.shift x.window := by
  by_cases hentered : x.pc.enteredTransfer
  · exact Sender.acked_of_entered hentered
  · obtain ⟨hshift, hwindow⟩ := h.idle hentered
    rw [Sender.acked_of_not_entered hentered, hshift, hwindow]
    ext k
    simp [mem_marked]

theorem Receiver.WF.stored_eq {cfg : ReceiverConfig} {start : UInt32}
    {payload : Nat → List UInt8} {n : Nat} {x : Receiver} (h : x.WF cfg start payload n) :
    x.stored = marked x.shift x.window := by
  by_cases hentered : x.pc.enteredTransfer
  · exact Receiver.stored_of_entered hentered
  · obtain ⟨hshift, hwindow⟩ := h.idle hentered
    rw [Receiver.stored_of_not_entered hentered, hshift, hwindow]
    ext k
    simp [mem_marked]

theorem Receiver.WF.settled {cfg : ReceiverConfig} {start : UInt32}
    {payload : Nat → List UInt8} {n : Nat} {x : Receiver} (h : x.WF cfg start payload n) :
    Settled x.window := by
  by_cases hentered : x.pc.enteredTransfer
  · exact (h.stores hentered).settled
  · simp [(h.idle hentered).2, Settled]

/-- The order of the two windows: the sender's base, the receiver's base, and
the end of what was sent. -/
theorem windows_ordered (hcfg : cfg.Compatible) (hinit : cfg.Starts init)
    (hs : (networkFrom cfg init).Reachable s) :
    s.sender.shift ≤ s.receiver.shift ∧
      s.receiver.shift ≤ s.sender.shift + s.sender.outstanding := by
  have h := dataInv_reachable hcfg hinit hs
  have hsafe := delivery_safe hcfg hinit hs
  have hsub : marked s.sender.shift s.sender.window ⊆
      marked s.receiver.shift s.receiver.window := by
    rw [← h.sender.acked_eq, ← h.receiver.stored_eq]
    exact hsafe.acked_subset
  have hsent : marked s.receiver.shift s.receiver.window ⊆ Set.Iio s.sender.sentCount := by
    rw [← h.receiver.stored_eq]
    exact h.stored_lt
  have hle := base_le_of_subset hsent
  refine ⟨base_le_base hsub h.receiver.settled, ?_⟩
  unfold Sender.outstanding
  omega

/-- Once the sender has left `transfer_data` every packet is stored. -/
theorem stored_all (hcfg : cfg.Compatible) (hinit : cfg.Starts init)
    (hs : (networkFrom cfg init).Reachable s)
    (hsender : s.sender.pc.leftTransfer) : s.receiver.stored = Set.Iio cfg.sender.npacket := by
  have h := dataInv_reachable hcfg hinit hs
  have hshift := (h.sender.finished hsender).2
  have hall : Set.Iio cfg.sender.npacket ⊆ s.delivery.acked := by
    rw [show s.delivery.acked = s.sender.acked from rfl, h.sender.acked_eq, ← hshift]
    exact Iio_subset_marked _ _
  exact (delivery_safe hcfg hinit hs).complete hall

/-- Every stored packet is in the buffer at its place. -/
theorem stored_holds (hcfg : cfg.Compatible) (hinit : cfg.Starts init)
    (hs : (networkFrom cfg init).Reachable s) :
    HoldsBlocks payloadMax cfg.sender.payload s.receiver.buf s.receiver.stored := by
  have h := dataInv_reachable hcfg hinit hs
  by_cases hentered : s.receiver.pc.enteredTransfer
  · rw [h.receiver.stored_eq]
    exact (h.receiver.stores hentered).holds
  · rw [Receiver.stored_of_not_entered hentered]
    exact holdsBlocks_empty

/-- Once both sides have left `transfer_data` the file is the one that was
assigned to the packets. -/
theorem file_eq_assigned (hcfg : cfg.Compatible) (hinit : cfg.Starts init)
    (hs : (networkFrom cfg init).Reachable s)
    (hsender : s.sender.pc.leftTransfer) (hreceiver : s.receiver.pc.leftTransfer) :
    s.receiver.file = some (cfg.sender.assigned.map some) := by
  have h := dataInv_reachable hcfg hinit hs
  have hstored := stored_all hcfg hinit hs hsender
  have hentered : s.receiver.pc.enteredTransfer := by
    cases hpc : s.receiver.pc <;>
      simp_all [ReceiverPc.enteredTransfer, ReceiverPc.leftTransfer]
  have hstores := h.receiver.stores hentered
  rw [h.receiver.stored_eq] at hstored
  have hholds := hstores.holds
  have hextent := hstores.extent
  rw [hstored] at hholds hextent
  rw [h.receiver.file hreceiver, read_of_holdsBlocks cfg.sender.blocked_payload hholds hextent]
  rfl

/-- When either program returns normally, both have left `transfer_data`. -/
theorem file_eq_of_closed (hcfg : cfg.Compatible) (hs : (network cfg).Reachable s)
    (hclosed : s.sender.pc = .closed ∨ s.receiver.pc = .closed) :
    s.receiver.file = some (cfg.sender.assigned.map some) := by
  have h := lifecycle_reachable hs
  rcases hclosed with hpc | hpc
  · exact file_eq_assigned hcfg (starts_network cfg) hs (by rw [hpc]; trivial) (h.receiverLeft hpc)
  · have hpast : s.receiver.pc.pastFinWait := by rw [hpc]; trivial
    exact file_eq_assigned hcfg (starts_network cfg) hs (h.senderLeft hpast)
      (ReceiverPc.leftTransfer_of_pastFinWait hpast)

end NetLabs.Rtp
