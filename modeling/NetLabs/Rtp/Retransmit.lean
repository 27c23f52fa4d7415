import NetLabs.Rtp.Segmentation

/-!
# Sending again after a timeout

The loop `for (i = 0; seqnum_add(wbase, i) < sqn; ++i)` compares two numbers of
the ring with a plain `<`.  That is the distance test as long as the outstanding
packets do not straddle the end of the ring.  When they do, `sqn` has wrapped to
a number below `wbase`, and the loop ends before its first pass.

* `resend_eq` and `resend_straddling` are the two cases of the loop, for any
  number of passes that is large enough (`resend_fuel`).
* `transferRecv_timeout_iff` puts them together for one timeout.
* `Run.exists_outstanding` reaches any packet of the file, so that
  `timeout_resends_iff` can say for which starting numbers every timeout of
  every run is handled as it should be.
-/

namespace NetLabs.Rtp

open NetLabs.Lib

namespace Sender

/-- The test that keeps packet `wbase + i` from being skipped. -/
def isUnacked (cfg : SenderConfig) (x : Sender) (i : Nat) : Bool :=
  cfg.mode = .gbn || !x.window.getD i false

/-- The outstanding packets, counted from `wbase`, that a timeout should send
again: all of them in go-back-N, those with a free slot in selective repeat. -/
def unacked (cfg : SenderConfig) (x : Sender) : List Nat :=
  (List.range (sqnDis x.wbase x.sqn)).filter (isUnacked cfg x)

/-- A timeout sends exactly the outstanding packets, each once and in order,
and at least one if there is any. -/
structure ResendsOutstanding (cfg : SenderConfig) (x : Sender) : Prop where
  exact : (transferRecv cfg x .timeout).2 =
    (unacked cfg x).map fun i : Nat => cfg.dataPacket (seqnumAdd x.wbase i) (x.shift + i)
  once : ((transferRecv cfg x .timeout).2.map Packet.seqNum).Nodup
  progress : x.wbase ≠ x.sqn → (transferRecv cfg x .timeout).2 ≠ []

variable {cfg : SenderConfig} {start : UInt32} {x : Sender} {o : Nat}

/-! ## The loop -/

/-- When `sqn` is ahead of `wbase` as a plain number, the loop runs through the
outstanding packets.  The induction is on the passes that are left. -/
theorem resend_eq (hahead : x.wbase.toNat + o = x.sqn.toNat) (hsqn : IsSeqnum x.sqn)
    {fuel i : Nat} (hi : i ≤ o) (hfuel : o ≤ i + fuel) :
    resend cfg x fuel i =
      ((List.range' i (o - i)).filter (isUnacked cfg x)).map
        fun j : Nat => cfg.dataPacket (seqnumAdd x.wbase j) (x.shift + j) := by
  unfold IsSeqnum at hsqn
  induction fuel generalizing i with
  | zero =>
    rw [resend, show o - i = 0 by omega]
    rfl
  | succ fuel ih =>
    rw [resend]
    by_cases hlt : i < o
    · have hbefore : seqnumAdd x.wbase i < x.sqn := by
        rw [UInt32.lt_iff_toNat_lt, seqnumAdd_toNat]
        omega
      rw [if_pos hbefore, show o - i = (o - (i + 1)) + 1 by omega, List.range'_succ,
        ih (by omega) (by omega)]
      by_cases hslot : cfg.mode = .sr ∧ x.window.getD i false
      · have hacked : ¬ isUnacked cfg x i = true := by
          rw [isUnacked, hslot.1, hslot.2]
          decide
        rw [if_pos hslot, List.filter_cons_of_neg hacked]
      · have hfree : isUnacked cfg x i = true := by
          cases hmode : cfg.mode <;> simp_all [isUnacked]
        rw [if_neg hslot, List.filter_cons_of_pos hfree, List.map_cons]
    · have hend : ¬ seqnumAdd x.wbase i < x.sqn := by
        rw [UInt32.lt_iff_toNat_lt, seqnumAdd_toNat]
        omega
      rw [if_neg hend, show o - i = 0 by omega]
      rfl

/-- When `sqn` is not ahead of `wbase` as a plain number, nothing is sent. -/
theorem resend_straddling (hwbase : IsSeqnum x.wbase) (h : ¬ x.wbase < x.sqn) (fuel : Nat) :
    resend cfg x fuel 0 = [] := by
  cases fuel with
  | zero => rfl
  | succ fuel =>
    have h0 : seqnumAdd x.wbase (0 : Nat) = x.wbase := seqnumAdd_zero hwbase
    rw [resend, h0, if_neg h]

/-- The outstanding packets do not straddle the end of the ring exactly when
`wbase` is below `sqn`. -/
theorem Aligned.wbase_lt_sqn_iff (h : Aligned cfg start x o) (ho : 0 < o) :
    x.wbase < x.sqn ↔ x.wbase.toNat + o = x.sqn.toNat := by
  have hlt := h.outstanding_lt
  have hnext : x.sqn = seqnumAdd x.wbase o := by
    rw [h.sqn, h.wbase, seqnumAdd_seqnumAdd]
    norm_cast
  have hbase : IsSeqnum x.wbase := h.wbase ▸ isSeqnum_seqnumAdd _ _
  unfold IsSeqnum at hbase
  rw [UInt32.lt_iff_toNat_lt, hnext, seqnumAdd_toNat]
  omega

/-- The number of passes that the model allows is never what ends the loop. -/
theorem resend_fuel (h : Aligned cfg start x o) (ho : 0 < o) {fuel : Nat} (hfuel : o ≤ fuel) :
    resend cfg x fuel 0 = resend cfg x (sqnDis x.wbase x.sqn) 0 := by
  have hwbase : IsSeqnum x.wbase := h.wbase ▸ isSeqnum_seqnumAdd _ _
  have hsqn : IsSeqnum x.sqn := h.sqn ▸ isSeqnum_seqnumAdd _ _
  by_cases hlt : x.wbase < x.sqn
  · have hahead := (h.wbase_lt_sqn_iff ho).mp hlt
    rw [h.sqnDis_eq, resend_eq hahead hsqn (Nat.zero_le _) (by omega),
      resend_eq hahead hsqn (Nat.zero_le _) (by omega)]
  · rw [resend_straddling hwbase hlt, resend_straddling hwbase hlt]

/-! ## One timeout -/

/-- A timeout with packets outstanding leaves the state alone and sends what the
loop sends. -/
theorem transferRecv_timeout (h : Aligned cfg start x o) (ho : 0 < o) (hpc : x.pc = .transfer) :
    transferRecv cfg x .timeout = (x, resend cfg x o 0) := by
  have hsent := h.sent_le
  have hbase : x.wbase ≠ x.sqn := by
    intro heq
    have hzero := h.wbase_eq_sqn_iff.mp heq
    omega
  have hstay : transferLoop cfg x = (x, []) := by
    rw [transferLoop, if_pos (by omega), if_neg hbase, ← hpc]
  rw [transferRecv, hstay, h.sqnDis_eq]
  show (x, resend cfg x o 0 ++ []) = (x, resend cfg x o 0)
  rw [List.append_nil]

/-- The first outstanding packet is never skipped. -/
theorem isUnacked_zero (h : Aligned cfg start x o) : isUnacked cfg x 0 = true := by
  have hsettled := h.settled
  unfold Settled at hsettled
  unfold isUnacked
  cases hslot : x.window[0]? with
  | none => simp [List.getD_eq_getElem?_getD, hslot]
  | some b =>
    cases b with
    | false => simp [List.getD_eq_getElem?_getD, hslot]
    | true => exact absurd hslot hsettled

/-- One timeout in one state of the loop. -/
theorem transferRecv_timeout_iff (h : Aligned cfg start x o) (ho : 0 < o) (hpc : x.pc = .transfer) :
    ResendsOutstanding cfg x ↔ x.wbase < x.sqn := by
  have hwbase : IsSeqnum x.wbase := h.wbase ▸ isSeqnum_seqnumAdd _ _
  have hsqn : IsSeqnum x.sqn := h.sqn ▸ isSeqnum_seqnumAdd _ _
  have hlt := h.outstanding_lt
  constructor
  · intro hresends
    by_contra hstraddles
    have hne : x.wbase ≠ x.sqn := by
      intro heq
      have hzero := h.wbase_eq_sqn_iff.mp heq
      omega
    apply hresends.progress hne
    rw [transferRecv_timeout h ho hpc, resend_straddling hwbase hstraddles]
  · intro hahead
    have hsent : (transferRecv cfg x .timeout).2 =
        (unacked cfg x).map
          fun i : Nat => cfg.dataPacket (seqnumAdd x.wbase i) (x.shift + i) := by
      rw [transferRecv_timeout h ho hpc,
        resend_eq ((h.wbase_lt_sqn_iff ho).mp hahead) hsqn (Nat.zero_le _) (by omega), unacked,
        h.sqnDis_eq, Nat.sub_zero, List.range_eq_range']
    refine ⟨hsent, ?_, fun _ hnil => ?_⟩
    · rw [hsent, List.map_map]
      refine List.Nodup.map_on ?_ (List.nodup_range.filter _)
      intro i hi j hj heq
      have hi' := List.mem_range.mp (List.mem_filter.mp hi).1
      have hj' := List.mem_range.mp (List.mem_filter.mp hj).1
      rw [h.sqnDis_eq] at hi' hj'
      exact seqnumAdd_inj (by omega) (by omega) heq
    · have hfirst : 0 ∈ unacked cfg x := by
        rw [unacked, List.mem_filter, List.mem_range, h.sqnDis_eq]
        exact ⟨ho, isUnacked_zero h⟩
      rw [hsent, List.map_eq_nil_iff] at hnil
      rw [hnil] at hfirst
      cases hfirst

/-! ## Whole runs -/

/-- Where the outstanding packets lie on the ring, in terms of the number that
the transfer started from. -/
theorem Aligned.straddles_iff (h : Aligned cfg start x o) (ho : 0 < o) (hstart : IsSeqnum start) :
    ¬ x.wbase < x.sqn ↔
      start.toNat + x.shift < 2 ^ 31 ∧ 2 ^ 31 ≤ start.toNat + (x.shift + o) := by
  have hsent := h.sent_le
  have hn := cfg.npacket_le
  unfold IsSeqnum at hstart
  rw [UInt32.lt_iff_toNat_lt, h.wbase, h.sqn, seqnumAdd_toNat, seqnumAdd_toNat]
  omega

end Sender

/-- The retransmission loop is right exactly in the states whose outstanding
packets do not straddle the end of the ring.  It is right in every state of
every run exactly when the last packet of the file is numbered before the ring
ends. -/
theorem timeout_resends_iff (cfg : SenderConfig) {start : UInt32} (hstart : IsSeqnum start)
    (x : Sender) (hsqn : x.sqn = start) :
    (∀ rs, (Sender.transferRun cfg x rs).1.pc = .transfer →
      (Sender.ResendsOutstanding cfg (Sender.transferRun cfg x rs).1 ↔
        (Sender.transferRun cfg x rs).1.wbase < (Sender.transferRun cfg x rs).1.sqn)) ∧
    ((∀ rs, (Sender.transferRun cfg x rs).1.pc = .transfer →
      Sender.ResendsOutstanding cfg (Sender.transferRun cfg x rs).1) ↔
        start.toNat + cfg.npacket < 2 ^ 31) := by
  obtain ⟨o, hrun⟩ := Sender.run_start cfg x hsqn hstart
  have hone : ∀ rs, (Sender.transferRun cfg x rs).1.pc = .transfer →
      (Sender.ResendsOutstanding cfg (Sender.transferRun cfg x rs).1 ↔
        (Sender.transferRun cfg x rs).1.wbase < (Sender.transferRun cfg x rs).1.sqn) := by
    intro rs hpc
    obtain ⟨o', hrun'⟩ := hrun.afterRecvs rs
    exact Sender.transferRecv_timeout_iff hrun'.aligned (hrun'.outstanding_pos hpc) hpc
  refine ⟨hone, ?_, ?_⟩
  · intro hall
    by_contra hlast
    have hring : start.toNat < 2 ^ 31 := hstart
    have hshift := Sender.transferStart_shift cfg x hsqn hstart
    -- the packet with the largest number of the ring
    obtain ⟨rs, o', hrun', hpc, hle, hlt⟩ :=
      hrun.exists_outstanding (k := 2 ^ 31 - 1 - start.toNat) (by omega) (by omega)
    have hresends := hall rs hpc
    rw [hone rs hpc] at hresends
    refine (hrun'.aligned.straddles_iff (by omega) hstart).mpr ⟨?_, ?_⟩ hresends
    · omega
    · omega
  · intro hlast rs hpc
    obtain ⟨o', hrun'⟩ := hrun.afterRecvs rs
    have hsent := hrun'.aligned.sent_le
    rw [hone rs hpc]
    by_contra hstraddles
    have hwrap := (hrun'.aligned.straddles_iff (hrun'.outstanding_pos hpc) hstart).mp hstraddles
    omega

/-- The number that `get_random_seqnum` returns starts the data at 0, where a
timeout sends the packet again. -/
theorem timeout_resends_oneByte :
    Sender.ResendsOutstanding (oneByte .sr).sender
      (Sender.transferRun (oneByte .sr).sender ⟨.established, false, 0, 0, 0, 0, []⟩ [.timeout]).1 := by
  have hstart : IsSeqnum 0 := by unfold IsSeqnum; decide
  have h := timeout_resends_iff (oneByte .sr).sender hstart
    ⟨.established, false, 0, 0, 0, 0, []⟩ rfl
  exact h.2.mpr (by decide) [.timeout] (by decide +kernel)

/-- A transfer of one packet that starts from the largest number of the ring. -/
def lastNumber : Sender := ⟨.established, false, 0, 0x7fffffff, 0x7fffffff, 0, []⟩

/-- Its only packet is outstanding, and a timeout sends nothing. -/
theorem lastNumber_never_resent :
    (Sender.transferRun (oneByte .sr).sender lastNumber []).1.pc = .transfer ∧
      sqnDis (Sender.transferRun (oneByte .sr).sender lastNumber []).1.wbase
        (Sender.transferRun (oneByte .sr).sender lastNumber []).1.sqn = 1 ∧
      (Sender.transferRecv (oneByte .sr).sender
        (Sender.transferRun (oneByte .sr).sender lastNumber []).1 .timeout).2 = [] ∧
      ¬ Sender.ResendsOutstanding (oneByte .sr).sender
        (Sender.transferRun (oneByte .sr).sender lastNumber []).1 := by
  have hnothing : (Sender.transferRecv (oneByte .sr).sender
      (Sender.transferRun (oneByte .sr).sender lastNumber []).1 .timeout).2 = [] := by decide +kernel
  refine ⟨by decide +kernel, by decide +kernel, hnothing, fun h => ?_⟩
  exact h.progress (by decide +kernel) hnothing

end NetLabs.Rtp
