import NetLabs.Rtp.SenderWindow

/-!
# The receiver's window against a sender of numbered packets

The peer sends packet `k` of `n` under the number `start + k` with the payload
`payload k`.  `Stores` says that the receiver's buffer, size and window agree
on one set of stored packets.

* `recvSr_stows` and `recvGbn_stows` are the specifications of the two
  branches for one data packet: it is stored or was stored before, and every
  ACK that is sent stands for stored packets only (`IsAck`).
* `step_data` carries this through every step of the program.
-/

namespace NetLabs.Rtp

open NetLabs.Lib

/-- What an ACK stands for.  In selective repeat it names one stored packet.
In go-back-N it names the first packet that is missing. -/
def IsAck (mode : Mode) (start : UInt32) (stored : Set Nat) (p : Packet) : Prop :=
  match mode with
  | .sr => ∃ k ∈ stored, p.seqNum = seqnumAdd start k
  | .gbn => ∃ m, Set.Iio m ⊆ stored ∧ p.seqNum = seqnumAdd start m

theorem IsAck.mono {mode : Mode} {start : UInt32} {S T : Set Nat} {p : Packet}
    (h : IsAck mode start S p) (hST : S ⊆ T) : IsAck mode start T p := by
  cases mode with
  | sr =>
    obtain ⟨k, hk, hseq⟩ := h
    exact ⟨k, hST hk, hseq⟩
  | gbn =>
    obtain ⟨m, hm, hseq⟩ := h
    exact ⟨m, hm.trans hST, hseq⟩

/-- When the sender reads an ACK as one of packet `k`, everything that the ACK
covers is stored.  In go-back-N the ACK that carries the starting number
itself is read as `start - 1`, which is no packet. -/
theorem IsAck.covers_subset {mode : Mode} {start : UInt32} {S : Set Nat} {p : Packet}
    {k n : Nat} (h : IsAck mode start S p) (hS : S ⊆ Set.Iio n) (hn : n < 2 ^ 30)
    (hk : k < 2 ^ 30) (hnum : Sender.ackNumber mode p = seqnumAdd start k) :
    Sender.covers mode k ⊆ S := by
  cases mode with
  | sr =>
    obtain ⟨j, hj, hseq⟩ := h
    have hjn : j < n := hS hj
    have hnum' : seqnumAdd start j = seqnumAdd start k := by
      have hshift : Sender.ackNumber .sr p = seqnumAdd start j := by
        simp [Sender.ackNumber, hseq, Mode.toNat]
      rw [← hshift, hnum]
    have heq : j = k := seqnumAdd_inj (by omega) (by omega) hnum'
    subst heq
    exact Set.singleton_subset_iff.mpr hj
  | gbn =>
    obtain ⟨m, hm, hseq⟩ := h
    have hnum' : seqnumAdd start ((m : Int) - 1) = seqnumAdd start k := by
      have hback : Sender.ackNumber .gbn p = seqnumAdd start ((m : Int) - 1) := by
        simp [Sender.ackNumber, hseq, Mode.toNat, Int.sub_eq_add_neg]
      rw [← hback, hnum]
    have hmn : m ≤ n := by
      by_contra hlt
      exact Nat.lt_irrefl n (hS (hm (Nat.not_le.mp hlt)))
    have hnat := congrArg (fun a : UInt32 => (a.toNat : Int)) hnum'
    simp only [seqnumAdd_toNat_int] at hnat
    have heq : m = k + 1 := by omega
    subst heq
    exact hm

/-- `transfer_data` of the receiver has been entered. -/
def ReceiverPc.enteredTransfer : ReceiverPc → Prop
  | .listen | .synReceived | .established => False
  | _ => True

namespace Receiver

/-- The packets in the file buffer. -/
def stored (x : Receiver) : Set Nat :=
  match x.pc with
  | .listen | .synReceived | .established => ∅
  | _ => marked x.shift x.window

theorem stored_of_entered {x : Receiver} (h : x.pc.enteredTransfer) :
    x.stored = marked x.shift x.window := by
  unfold stored
  cases hpc : x.pc <;> simp_all [ReceiverPc.enteredTransfer]

theorem stored_of_not_entered {x : Receiver} (h : ¬ x.pc.enteredTransfer) : x.stored = ∅ := by
  unfold stored
  cases hpc : x.pc <;> simp_all [ReceiverPc.enteredTransfer]

variable (cfg : ReceiverConfig) (start : UInt32) (payload : Nat → List UInt8) (n : Nat)

/-- The window, the buffer and the size agree on what is stored. -/
structure Stores (x : Receiver) : Prop where
  length : x.window.length = cfg.wsize
  settled : Settled x.window
  gbn : cfg.mode = .gbn → x.window = List.replicate cfg.wsize false
  stored_le : marked x.shift x.window ⊆ Set.Iio n
  holds : HoldsBlocks payloadMax payload x.buf (marked x.shift x.window)
  extent : IsLUB (blockEnd payloadMax payload '' marked x.shift x.window) x.fsize

/-- The number that the mode compares with is the one of the first packet that
is missing. -/
def Numbered (x : Receiver) : Prop :=
  match cfg.mode with
  | .sr => x.wbase = seqnumAdd start x.shift
  | .gbn => x.sqn = seqnumAdd start x.shift

/-- What one data packet `k` does: it is stored or changes nothing, and the
answer stands for stored packets. -/
structure Stows (x : Receiver) (k : Nat) (x' : Receiver) (sent : List Packet) : Prop where
  stores : Stores cfg payload n x'
  numbered : Numbered cfg start x'
  stored : marked x'.shift x'.window = marked x.shift x.window ∨
    marked x'.shift x'.window = insert k (marked x.shift x.window)
  acks : ∀ q ∈ sent, IsAck cfg.mode start (marked x'.shift x'.window) q

variable {cfg start payload n}

theorem Stores.shift_le {x : Receiver} (h : Stores cfg payload n x) : x.shift ≤ n :=
  base_le_of_subset h.stored_le

/-- In go-back-N exactly the packets below `shift` are stored. -/
theorem Stores.marked_gbn {x : Receiver} (h : Stores cfg payload n x) (hmode : cfg.mode = .gbn) :
    marked x.shift x.window = Set.Iio x.shift := by
  rw [h.gbn hmode, marked_replicate_false]

/-! ## Selective repeat -/

/-- The range that is acknowledged again without storing: the window before
`wbase`.  Counting from `wsize` packets before `start` keeps all indices
natural numbers. -/
theorem isIn_before (start : UInt32) {shift k w : Nat} (hpos : 0 < w) (hw : w ≤ 2 ^ 30) (hshift : shift ≤ 1436)
    (hk : k < 1436) :
    seqnumIsIn (seqnumAdd start k) (seqnumAdd (seqnumAdd start shift) (-(w : Int)))
        (seqnumAdd start shift) = true ↔
      shift ≤ w + k ∧ k < shift := by
  have hbase : ∀ j : Nat, seqnumAdd start j = seqnumAdd (seqnumAdd start (-(w : Int))) (w + j : Nat) := by
    intro j
    rw [seqnumAdd_seqnumAdd]
    congr 1
    omega
  have hfirst : seqnumAdd (seqnumAdd start shift) (-(w : Int)) =
      seqnumAdd (seqnumAdd start (-(w : Int))) shift := by
    rw [seqnumAdd_seqnumAdd, seqnumAdd_seqnumAdd, Int.add_comm]
  rw [hfirst, hbase k, hbase shift, Nat.add_comm w shift,
    seqnumIsIn_index hpos (by omega) (by omega) (by omega)]
  omega

/-- The range that is stored: the window from `wbase` on. -/
theorem isIn_window (start : UInt32) {shift k w : Nat} (hpos : 0 < w) (hw : w ≤ 2 ^ 30) (hshift : shift ≤ 1436)
    (hk : k < 1436) :
    seqnumIsIn (seqnumAdd start k) (seqnumAdd start shift)
        (seqnumAdd (seqnumAdd start shift) (w : Int)) = true ↔
      shift ≤ k ∧ k < shift + w := by
  have hlast : seqnumAdd (seqnumAdd start shift) (w : Int) = seqnumAdd start (shift + w : Nat) := by
    rw [seqnumAdd_seqnumAdd]
    norm_cast
  rw [hlast, seqnumIsIn_index hpos (by omega) (by omega) (by omega)]

/-- Accepting packet `k` of the window adds it to what is stored. -/
theorem acceptSr_stores {x : Receiver} {p : Packet} {k : Nat} (hmode : cfg.mode = .sr)
    (hB : Blocked payloadMax payload n) (hn : n ≤ 1436) (h : Stores cfg payload n x)
    (hnum : x.wbase = seqnumAdd start x.shift) (hk : k < n) (hseq : p.seqNum = seqnumAdd start k)
    (hpayload : p.payload = payload k) (hle : x.shift ≤ k) (hlt : k < x.shift + cfg.wsize) :
    Stores cfg payload n (acceptSr cfg x p) ∧
      (acceptSr cfg x p).wbase = seqnumAdd start (acceptSr cfg x p).shift ∧
      marked (acceptSr cfg x p).shift (acceptSr cfg x p).window =
        insert k (marked x.shift x.window) := by
  have hdis : sqnDis x.wbase p.seqNum = k - x.shift := by
    rw [hnum, hseq, sqnDis_index _ _ hle (by omega)]
  have hmov : k - x.shift + x.shift = k := by omega
  obtain ⟨hmarked, hsettled⟩ :=
    marked_updateWindow x.shift h.length (show k - x.shift < cfg.wsize by omega)
  rw [show x.shift + (k - x.shift) = k by omega] at hmarked
  have hset : marked (acceptSr cfg x p).shift (acceptSr cfg x p).window =
      insert k (marked x.shift x.window) := by
    simp only [acceptSr, hdis, hmov]
    exact hmarked
  have hsize : (acceptSr cfg x p).fsize = max (blockEnd payloadMax payload k) x.fsize := by
    simp only [acceptSr, hdis, hmov, Packet.length, hpayload, blockEnd]
    split <;> omega
  refine ⟨?_, ?_, hset⟩
  · exact {
      length := by
        simp only [acceptSr, hdis, hmov]
        exact updateWindow_length h.length _
      settled := by
        simp only [acceptSr, hdis, hmov]
        exact hsettled
      gbn := fun hgbn => by rw [hmode] at hgbn; cases hgbn
      stored_le := by
        rw [hset]
        exact Set.insert_subset hk h.stored_le
      holds := by
        rw [hset]
        have hwrite := h.holds.overwrite (k := k) (fun j hj => hB.le j (h.stored_le hj)) (hB.le k hk)
        simpa only [acceptSr, hdis, hmov, hpayload, Buffer.memcpy] using hwrite
      extent := by
        rw [hset, hsize]
        exact extent_insert h.extent k }
  · simp only [acceptSr, hnum, seqnumAdd_seqnumAdd]
    norm_cast

/-- The branch of selective repeat for one data packet. -/
theorem recvSr_stows {x : Receiver} {p : Packet} {k : Nat} (hmode : cfg.mode = .sr)
    (hw : cfg.wsize ≤ 2 ^ 30) (hB : Blocked payloadMax payload n) (hn : n ≤ 1436)
    (h : Stores cfg payload n x) (hnum : x.wbase = seqnumAdd start x.shift) (hk : k < n)
    (hseq : p.seqNum = seqnumAdd start k) (hpayload : p.payload = payload k) :
    Stows cfg start payload n x k (recvSr cfg x p).1 (recvSr cfg x p).2 := by
  have hshift := h.shift_le
  have hnumbered : Numbered cfg start x := by
    unfold Numbered
    rw [hmode]
    exact hnum
  unfold recvSr
  rw [hnum, hseq]
  split
  · rename_i hin
    have hbehind := ((isIn_before start cfg.wsize_pos hw (by omega) (by omega)).mp hin).2
    refine ⟨h, hnumbered, Or.inl rfl, ?_⟩
    simp only [List.mem_singleton, forall_eq, hmode]
    exact ⟨k, Or.inl hbehind, rfl⟩
  · split
    · rename_i _ hin
      obtain ⟨hle, hlt⟩ := (isIn_window start cfg.wsize_pos hw (by omega) (by omega)).mp hin
      obtain ⟨hstores, hbase, hset⟩ := acceptSr_stores hmode hB hn h hnum hk hseq hpayload hle hlt
      refine ⟨hstores, ?_, Or.inr hset, ?_⟩
      · unfold Numbered
        rw [hmode]
        exact hbase
      · simp only [List.mem_singleton, forall_eq, hmode]
        exact ⟨k, by rw [hset]; exact Set.mem_insert _ _, rfl⟩
    · exact ⟨h, hnumbered, Or.inl rfl, nofun⟩

/-! ## Go-back-N -/

/-- Accepting the next packet moves `shift` over it. -/
theorem acceptGbn_stores {x : Receiver} {p : Packet} (hmode : cfg.mode = .gbn)
    (hB : Blocked payloadMax payload n) (h : Stores cfg payload n x)
    (hnum : x.sqn = seqnumAdd start x.shift) (hk : x.shift < n)
    (hpayload : p.payload = payload x.shift) :
    Stores cfg payload n (acceptGbn x p) ∧
      (acceptGbn x p).sqn = seqnumAdd start (acceptGbn x p).shift ∧
      marked (acceptGbn x p).shift (acceptGbn x p).window =
        insert x.shift (marked x.shift x.window) := by
  have hstored := h.marked_gbn hmode
  have hafter : marked (acceptGbn x p).shift (acceptGbn x p).window = Set.Iio (x.shift + 1) := by
    simp only [acceptGbn, h.gbn hmode, marked_replicate_false]
  have hset : marked (acceptGbn x p).shift (acceptGbn x p).window =
      insert x.shift (marked x.shift x.window) := by
    rw [hafter, hstored]
    ext j
    simp only [Set.mem_Iio, Set.mem_insert_iff]
    omega
  refine ⟨?_, ?_, hset⟩
  · exact {
      length := h.length
      settled := h.settled
      gbn := h.gbn
      stored_le := by
        rw [hset]
        exact Set.insert_subset hk h.stored_le
      holds := by
        rw [hset]
        have hwrite := h.holds.overwrite (k := x.shift) (fun j hj => hB.le j (h.stored_le hj))
          (hB.le _ hk)
        simpa only [acceptGbn, hpayload, Buffer.memcpy] using hwrite
      extent := by
        have hextent := h.extent
        rw [hstored] at hextent
        rw [hafter]
        simpa only [acceptGbn, Packet.length, hpayload] using extent_succ hB hk hextent }
  · simp only [acceptGbn, hnum, seqnumAdd_seqnumAdd]
    norm_cast

/-- The branch of go-back-N for one data packet. -/
theorem recvGbn_stows {x : Receiver} {p : Packet} {k : Nat} (hmode : cfg.mode = .gbn)
    (hB : Blocked payloadMax payload n) (hn : n ≤ 1436)
    (h : Stores cfg payload n x) (hnum : x.sqn = seqnumAdd start x.shift) (hk : k < n)
    (hseq : p.seqNum = seqnumAdd start k) (hpayload : p.payload = payload k) :
    Stows cfg start payload n x k (recvGbn x p).1 (recvGbn x p).2 := by
  have hshift := h.shift_le
  -- the answer names the first missing packet, whether or not `p` was taken
  have hack : ∀ y : Receiver, Stores cfg payload n y → y.sqn = seqnumAdd start y.shift →
      ∀ q ∈ [controlPacket y.sqn rtpAck], IsAck cfg.mode start (marked y.shift y.window) q := by
    intro y hy hynum
    simp only [List.mem_singleton, forall_eq, hmode]
    exact ⟨y.shift, Iio_subset_marked _ _, hynum⟩
  unfold recvGbn
  split
  · rename_i hnext
    have heq : k = x.shift := seqnumAdd_inj (by omega) (by omega) (by rw [← hseq, hnext, hnum])
    subst heq
    obtain ⟨hstores, hsqn, hset⟩ := acceptGbn_stores hmode hB h hnum hk hpayload
    refine ⟨hstores, ?_, Or.inr hset, hack _ hstores hsqn⟩
    unfold Numbered
    rw [hmode]
    exact hsqn
  · refine ⟨h, ?_, Or.inl rfl, hack _ h hnum⟩
    unfold Numbered
    rw [hmode]
    exact hnum

/-- Either branch. -/
theorem recvData_stows {x : Receiver} {p : Packet} {k : Nat}
    (hw : cfg.mode = .sr → cfg.wsize ≤ 2 ^ 30) (hB : Blocked payloadMax payload n)
    (hn : n ≤ 1436) (h : Stores cfg payload n x) (hnum : Numbered cfg start x) (hk : k < n)
    (hseq : p.seqNum = seqnumAdd start k) (hpayload : p.payload = payload k) :
    Stows cfg start payload n x k (recvData cfg x p).1 (recvData cfg x p).2 := by
  unfold recvData
  unfold Numbered at hnum
  cases hmode : cfg.mode with
  | sr =>
    rw [hmode] at hnum
    exact recvSr_stows hmode (hw hmode) hB hn h hnum hk hseq hpayload
  | gbn =>
    rw [hmode] at hnum
    exact recvGbn_stows hmode hB hn h hnum hk hseq hpayload

variable (cfg payload n) in
/-- Entry of `transfer_data`: nothing is stored yet. -/
theorem transferStart_stores (x : Receiver) (hsqn : x.sqn = start) (hstart : IsSeqnum start) :
    Stores cfg payload n (transferStart cfg x) ∧ Numbered cfg start (transferStart cfg x) ∧
      marked (transferStart cfg x).shift (transferStart cfg x).window = ∅ := by
  have hset : marked (transferStart cfg x).shift (transferStart cfg x).window = ∅ := by
    simp only [transferStart, marked_replicate_false]
    exact Set.Iio_bot
  refine ⟨?_, ?_, hset⟩
  · exact {
      length := by simp [transferStart]
      settled := by simp [transferStart, Settled, List.getElem?_replicate]
      gbn := fun _ => rfl
      stored_le := by rw [hset]; exact Set.empty_subset _
      holds := by rw [hset]; exact holdsBlocks_empty
      extent := by rw [hset]; exact extent_empty }
  · have h0 := seqnumAdd_zero hstart
    unfold Numbered
    cases cfg.mode <;> simp [transferStart, hsqn, h0]

/-! ## The whole program -/

variable (cfg start payload n) in
/-- The storage invariant at every stop of the program. -/
structure WF (x : Receiver) : Prop where
  idle : ¬ x.pc.enteredTransfer → x.shift = 0 ∧ x.window = []
  stores : x.pc.enteredTransfer → Stores cfg payload n x
  numbered : x.pc = .transfer → Numbered cfg start x
  file : x.pc.leftTransfer → x.file = some (readFirst x.buf x.fsize)

theorem WF.of_not_entered {x : Receiver} (h : ¬ x.pc.enteredTransfer) (hshift : x.shift = 0)
    (hwindow : x.window = []) : WF cfg start payload n x where
  idle _ := ⟨hshift, hwindow⟩
  stores h' := absurd h' h
  numbered hpc := absurd (by simp [hpc, ReceiverPc.enteredTransfer]) h
  file hleft := by
    cases hpc : x.pc <;> simp_all [ReceiverPc.enteredTransfer, ReceiverPc.leftTransfer]

variable (cfg start payload n) in
/-- What a step does to the stored packets and what its answers stand for. -/
structure DataStep (x : Receiver) (input : Input) (x' : Receiver) (sent : List Packet) : Prop where
  wf : WF cfg start payload n x'
  stored : x'.stored = x.stored ∨
    ∃ (p : Packet) (k : Nat), input = .recv (.ok p) ∧ p.flags = 0 ∧
      p.seqNum = seqnumAdd start k ∧ k < n ∧ x'.stored = insert k x.stored
  acks : ∀ q ∈ sent, q.flags = rtpAck → IsAck cfg.mode start x'.stored q

theorem DataStep.stored_mono {x x' : Receiver} {input : Input} {sent : List Packet}
    (h : DataStep cfg start payload n x input x' sent) : x.stored ⊆ x'.stored := by
  rcases h.stored with hsame | ⟨p, k, _, _, _, _, hset⟩
  · exact hsame.ge
  · rw [hset]
    exact Set.subset_insert _ _

/-- A step outside `transfer_data`. -/
private theorem dataStep_of_not_entered {x x' : Receiver} {input : Input} {sent : List Packet}
    (h : WF cfg start payload n x) (hpc : ¬ x.pc.enteredTransfer)
    (hpc' : ¬ x'.pc.enteredTransfer) (hshift : x'.shift = x.shift)
    (hwindow : x'.window = x.window) (hsent : ∀ q ∈ sent, q.flags ≠ rtpAck) :
    DataStep cfg start payload n x input x' sent where
  wf := .of_not_entered hpc' (hshift.trans (h.idle hpc).1) (hwindow.trans (h.idle hpc).2)
  stored := Or.inl (by rw [stored_of_not_entered hpc, stored_of_not_entered hpc'])
  acks q hq hflags := absurd hflags (hsent q hq)

/-- A step after `transfer_data`, where only the counters and `sqn` change. -/
private theorem dataStep_of_left {x x' : Receiver} {input : Input} {sent : List Packet}
    (h : WF cfg start payload n x) (hpc : x.pc.leftTransfer) (hpc' : x'.pc.leftTransfer)
    (hshift : x'.shift = x.shift) (hwindow : x'.window = x.window) (hbuf : x'.buf = x.buf)
    (hfsize : x'.fsize = x.fsize) (hfile : x'.file = x.file)
    (hsent : ∀ q ∈ sent, q.flags ≠ rtpAck) : DataStep cfg start payload n x input x' sent := by
  have hentered : ∀ {pc : ReceiverPc}, pc.leftTransfer → pc.enteredTransfer := by
    intro pc hleft
    cases pc <;> simp_all [ReceiverPc.enteredTransfer, ReceiverPc.leftTransfer]
  have hstores := h.stores (hentered hpc)
  exact {
    wf := {
      idle := fun hx => absurd (hentered hpc') hx
      stores := fun _ => {
        length := by rw [hwindow]; exact hstores.length
        settled := by rw [hwindow]; exact hstores.settled
        gbn := by rw [hwindow]; exact hstores.gbn
        stored_le := by rw [hshift, hwindow]; exact hstores.stored_le
        holds := by rw [hshift, hwindow, hbuf]; exact hstores.holds
        extent := by rw [hshift, hwindow, hfsize]; exact hstores.extent }
      numbered := fun hx => by
        rw [hx] at hpc'
        exact hpc'.elim
      file := fun _ => by
        rw [hfile, hbuf, hfsize]
        exact h.file hpc }
    stored := Or.inl (by
      rw [stored_of_entered (hentered hpc), stored_of_entered (hentered hpc'), hshift, hwindow])
    acks := fun q hq hflags => absurd hflags (hsent q hq) }

/-- Every step of the receiver keeps the storage invariant, as long as the data
packets it takes are numbered packets of the peer. -/
theorem step_data {x x' : Receiver} {input : Input} {sent : List Packet}
    (hstep : step cfg x input = some (x', sent)) (hstart : IsSeqnum start)
    (hw : cfg.mode = .sr → cfg.wsize ≤ 2 ^ 30) (hB : Blocked payloadMax payload n)
    (hn : n ≤ 1436) (hsqn : x.pc = .established → x.sqn = start)
    (hdata : ∀ p, input = .recv (.ok p) → p.flags = 0 →
      ∃ k < n, p.seqNum = seqnumAdd start k ∧ p.payload = payload k)
    (h : WF cfg start payload n x) : DataStep cfg start payload n x input x' sent := by
  obtain ⟨_, hmove⟩ := move_of_step cfg hstep
  cases hmove with
  | exit =>
    exact ⟨⟨h.idle, fun hx => { h.stores hx with }, h.numbered, h.file⟩, Or.inl rfl, nofun⟩
  | listenTimeout hpc =>
    exact dataStep_of_not_entered h (by simp [hpc, ReceiverPc.enteredTransfer])
      (by simp [hpc, ReceiverPc.enteredTransfer]) rfl rfl nofun
  | listenSkip hpc =>
    exact dataStep_of_not_entered h (by simp [hpc, ReceiverPc.enteredTransfer])
      (by simp [hpc, ReceiverPc.enteredTransfer]) rfl rfl nofun
  | syn hpc =>
    exact dataStep_of_not_entered h (by simp [hpc, ReceiverPc.enteredTransfer])
      (by simp [ReceiverPc.enteredTransfer]) rfl rfl (by simp [synAck_ne_ack])
  | synRetry hpc =>
    exact dataStep_of_not_entered h (by simp [hpc, ReceiverPc.enteredTransfer])
      (by simp [hpc, ReceiverPc.enteredTransfer]) rfl rfl (by simp [synAck_ne_ack])
  | synAccept hpc =>
    exact dataStep_of_not_entered h (by simp [hpc, ReceiverPc.enteredTransfer])
      (by simp [ReceiverPc.enteredTransfer]) rfl rfl nofun
  | enter hpc =>
    obtain ⟨hstores, hnum, hset⟩ :=
      transferStart_stores cfg payload n x (hsqn hpc) hstart
    have hbefore : ¬ x.pc.enteredTransfer := by simp [hpc, ReceiverPc.enteredTransfer]
    exact {
      wf := ⟨fun hx => absurd trivial hx, fun _ => hstores, fun _ => hnum, False.elim⟩
      stored := Or.inl (by
        rw [stored_of_not_entered hbefore, stored_of_entered (by trivial), hset])
      acks := nofun }
  | leave hpc =>
    have hentered : x.pc.enteredTransfer := by simp [hpc, ReceiverPc.enteredTransfer]
    exact {
      wf := ⟨fun hx => absurd trivial hx, fun _ => { h.stores hentered with }, nofun, fun _ => rfl⟩
      stored := Or.inl (by
        rw [stored_of_entered hentered, stored_of_entered (by trivial)]
        rfl)
      acks := nofun }
  | skip => exact ⟨h, Or.inl rfl, nofun⟩
  | @data p hpc hflags =>
    have hentered : x.pc.enteredTransfer := by simp [hpc, ReceiverPc.enteredTransfer]
    obtain ⟨k, hk, hseq, hpayload⟩ := hdata p rfl hflags
    have hstows := recvData_stows hw hB hn (h.stores hentered) (h.numbered hpc) hk hseq hpayload
    have hpc' : (recvData cfg x p).1.pc = .transfer := (recvData_phase cfg x p).1.trans hpc
    have hentered' : (recvData cfg x p).1.pc.enteredTransfer := by
      simp [hpc', ReceiverPc.enteredTransfer]
    refine ⟨⟨fun hx => absurd hentered' hx, fun _ => hstows.stores, fun _ => hstows.numbered,
      fun hleft => ?_⟩, ?_, ?_⟩
    · rw [hpc'] at hleft
      exact hleft.elim
    · rw [stored_of_entered hentered, stored_of_entered hentered']
      rcases hstows.stored with hsame | hset
      · exact Or.inl hsame
      · exact Or.inr ⟨p, k, rfl, hflags, hseq, hk, hset⟩
    · intro q hq _
      rw [stored_of_entered hentered']
      exact hstows.acks q hq
  | finSkip hpc => exact ⟨h, Or.inl rfl, nofun⟩
  | fin hpc =>
    exact dataStep_of_left h (by simp [hpc, ReceiverPc.leftTransfer])
      (by simp [ReceiverPc.leftTransfer]) rfl rfl rfl rfl rfl (by simp [finAck_ne_ack])
  | close hpc sqn hsent =>
    refine dataStep_of_left h (by simp [hpc, ReceiverPc.leftTransfer])
      (by simp [ReceiverPc.leftTransfer]) rfl rfl rfl rfl rfl (fun q hq => ?_)
    rw [hsent q hq]
    simp [finAck_ne_ack]

end Receiver

end NetLabs.Rtp
