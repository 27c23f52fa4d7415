import NetLabs.Rtp.Segmentation

/-!
# The bounds of the sender's window

Every index and every address that the sender's `transfer_data` uses, in every
run and whatever the peer sends.

* `WindowBounds` is about the variables, at every receive and every test of the
  loop's condition.
* `ReceiveBounds` is about the code behind one receive: the membership test and
  the slots of `window` that the two branches touch (`resend_congr` and
  `updateWindow_local` tie these to the code).
* `WindowSafe` collects these over all runs, with the progress of `shift` and
  the bytes that are read from the file buffer.
-/

namespace NetLabs.Rtp

open NetLabs.Lib

/-- The packets lie inside the loaded bytes. -/
theorem SenderConfig.payload_inside (cfg : SenderConfig) {k : Nat} (hk : k < cfg.npacket) :
    k * payloadMax + cfg.dsize k ≤ cfg.fsize ∧ (cfg.payload k).length = cfg.dsize k := by
  have hcount : cfg.npacket = (cfg.fsize + payloadMax - 1) / payloadMax := rfl
  have hinside : k * payloadMax + cfg.dsize k ≤ cfg.fsize := by
    unfold dsize tsize
    simp only [payloadMax] at *
    split <;> omega
  refine ⟨hinside, ?_⟩
  have hbuf : cfg.buf.length = cfg.fsize := rfl
  rw [payload, List.length_take, List.length_drop, hbuf]
  omega

namespace Sender

/-- The slots of `window` that the loop after a timeout reads. -/
def resendSlots (cfg : SenderConfig) (x : Sender) : (fuel i : Nat) → List Nat
  | 0, _ => []
  | fuel + 1, i =>
    if seqnumAdd x.wbase i < x.sqn then
      if cfg.mode = .sr then i :: resendSlots cfg x fuel (i + 1)
      else resendSlots cfg x fuel (i + 1)
    else
      []

/-- The loop looks at none but these slots: with a window that agrees there it sends
the same. -/
theorem resend_congr (cfg : SenderConfig) (x : Sender) (window : List Bool) {fuel i : Nat}
    (h : AgreeOn {j | j ∈ resendSlots cfg x fuel i} x.window window) :
    resend cfg { x with window } fuel i = resend cfg x fuel i := by
  induction fuel generalizing i with
  | zero => rfl
  | succ fuel ih =>
    simp only [resendSlots, resend] at h ⊢
    by_cases hbefore : seqnumAdd x.wbase i < x.sqn
    · simp only [if_pos hbefore] at h ⊢
      by_cases hmode : cfg.mode = .sr
      · simp only [if_pos hmode] at h
        have hslot := h.getD List.mem_cons_self
        have hrest := ih (i := i + 1) fun j hj => h j (List.mem_cons_of_mem _ hj)
        simp only [hslot, hrest]
      · simp only [if_neg hmode] at h
        rw [if_neg (fun hand => hmode hand.1), if_neg (fun hand => hmode hand.1), ih h]
    · rw [if_neg hbefore, if_neg hbefore]

/-- The state in which the condition of the loop is tested again after a
receive. -/
def loopHead (cfg : SenderConfig) (x : Sender) : Recv → Sender
  | .ok p =>
    if p.flags = rtpAck ∧ seqnumIsIn (ackNumber cfg.mode p) x.wbase x.sqn then
      slid cfg x (ackNumber cfg.mode p)
    else
      x
  | _ => x

/-- The bounds on the variables of the window. -/
structure WindowBounds (cfg : SenderConfig) (x : Sender) : Prop where
  outstanding_le : sqnDis x.wbase x.sqn ≤ cfg.wsize
  sent_le : x.shift + sqnDis x.wbase x.sqn ≤ cfg.npacket
  length : x.window.length = cfg.wsize
  free : ∀ i, sqnDis x.wbase x.sqn ≤ i → i < cfg.wsize → x.window[i]? = some false

/-- The bounds on what a receive makes the code look at. -/
structure ReceiveBounds (cfg : SenderConfig) (x : Sender) : Prop where
  busy : x.wbase ≠ x.sqn
  resend_lt : ∀ fuel, ∀ i ∈ resendSlots cfg x fuel 0, i < cfg.wsize
  acknowledge_lt : cfg.mode = .sr → ∀ p : Packet, p.flags = rtpAck →
    seqnumIsIn (ackNumber cfg.mode p) x.wbase x.sqn = true →
    ∀ i ∈ updateWindowSlots x.window cfg.wsize (sqnDis x.wbase (ackNumber cfg.mode p)),
      i < cfg.wsize

/-- All runs of `transfer_data` that start from `x` stay inside their bounds. -/
structure WindowSafe (cfg : SenderConfig) (x : Sender) : Prop where
  window : ∀ rs, WindowBounds cfg (transferRun cfg x rs).1
  head : ∀ rs r, (transferRun cfg x rs).1.pc = .transfer →
    WindowBounds cfg (loopHead cfg (transferRun cfg x rs).1 r)
  recv : ∀ rs, (transferRun cfg x rs).1.pc = .transfer → ReceiveBounds cfg (transferRun cfg x rs).1
  shift_le : ∀ rs rs', (transferRun cfg x rs).1.shift ≤ (transferRun cfg x (rs ++ rs')).1.shift
  reads : ∀ rs, ∀ p ∈ (transferRun cfg x rs).2, ∃ k < cfg.npacket,
    p = cfg.dataPacket (seqnumAdd x.sqn k) k ∧
      k * payloadMax + cfg.dsize k ≤ cfg.fsize ∧ p.length = cfg.dsize k

variable {cfg : SenderConfig} {start : UInt32} {x : Sender} {o : Nat}

theorem transferRecv_loopHead (cfg : SenderConfig) (x : Sender) (r : Recv) :
    (transferRecv cfg x r).1 = (transferLoop cfg (loopHead cfg x r)).1 := by
  cases r with
  | timeout => rfl
  | rejected p => rfl
  | ok p =>
    by_cases hack : p.flags = rtpAck ∧ seqnumIsIn (ackNumber cfg.mode p) x.wbase x.sqn = true
    · have hhead : loopHead cfg x (.ok p) = slid cfg x (ackNumber cfg.mode p) := if_pos hack
      obtain ⟨hflags, hin⟩ := hack
      rw [hhead]
      unfold ackNumber at hin ⊢
      simp only [transferRecv]
      rw [if_neg (not_not.mpr hflags), if_neg (by simp [hin])]
      rfl
    · have hhead : loopHead cfg x (.ok p) = x := if_neg hack
      rw [hhead]
      rcases transferRecv_ok cfg x p with heq | ⟨hflags, hin, _⟩
      · rw [heq]
      · exact absurd ⟨hflags, hin⟩ hack

/-! ## One state -/

theorem Aligned.windowBounds (h : Aligned cfg start x o) : WindowBounds cfg x where
  outstanding_le := by
    rw [h.sqnDis_eq]
    exact h.outstanding_le
  sent_le := by
    rw [h.sqnDis_eq]
    exact h.sent_le
  length := h.length
  free i hi hlt := by
    rw [h.sqnDis_eq] at hi
    have hslot : i < x.window.length := by
      rw [h.length]
      exact hlt
    cases hvalue : x.window[i]? with
    | none => simp [hslot] at hvalue
    | some b =>
      cases b with
      | false => rfl
      | true =>
        have hbelow := h.slots i hvalue
        omega

theorem Aligned.loopHead_windowBounds (h : Aligned cfg start x o) (ho : 0 < o) (r : Recv) :
    WindowBounds cfg (loopHead cfg x r) := by
  cases r with
  | timeout => exact h.windowBounds
  | rejected p => exact h.windowBounds
  | ok p =>
    rw [loopHead]
    by_cases hack : p.flags = rtpAck ∧ seqnumIsIn (ackNumber cfg.mode p) x.wbase x.sqn = true
    · rw [if_pos hack]
      obtain ⟨d, hd, hdis, _⟩ := exists_index_of_isIn h ho (isSeqnum_ackNumber _ _) hack.2
      obtain ⟨mov, _, _, _, haligned, _⟩ := slid_aligned h hd hdis
      exact haligned.windowBounds
    · rw [if_neg hack]
      exact h.windowBounds

/-- The loop reads no slot behind the outstanding packets, with `sqn` ahead of
`wbase` or wrapped.  The induction is on the passes; `i ≤ o` carries it. -/
theorem Aligned.lt_of_mem_resendSlots (h : Aligned cfg start x o) {fuel i j : Nat} (hi : i ≤ o)
    (hj : j ∈ resendSlots cfg x fuel i) : j < o := by
  induction fuel generalizing i with
  | zero => cases hj
  | succ fuel ih =>
    rw [resendSlots] at hj
    by_cases hbefore : seqnumAdd x.wbase i < x.sqn
    · have hlt : i < o := by
        rcases Nat.lt_or_eq_of_le hi with hlt | rfl
        · exact hlt
        · have hend : seqnumAdd x.wbase i = x.sqn := by
            rw [h.sqn, h.wbase, seqnumAdd_seqnumAdd]
            norm_cast
          rw [hend] at hbefore
          exact absurd hbefore (UInt32.lt_irrefl _)
      rw [if_pos hbefore] at hj
      by_cases hmode : cfg.mode = .sr
      · rw [if_pos hmode] at hj
        rcases List.mem_cons.mp hj with rfl | hj
        · exact hlt
        · exact ih hlt hj
      · rw [if_neg hmode] at hj
        exact ih hlt hj
    · rw [if_neg hbefore] at hj
      cases hj

theorem Aligned.receiveBounds (h : Aligned cfg start x o) (ho : 0 < o) : ReceiveBounds cfg x where
  busy heq := by
    have hzero := h.wbase_eq_sqn_iff.mp heq
    omega
  resend_lt fuel i hi := by
    have hlt := h.lt_of_mem_resendSlots (Nat.zero_le o) hi
    have hle := h.outstanding_le
    omega
  acknowledge_lt _ p _ hin i hi := by
    obtain ⟨d, hd, hdis, _⟩ := exists_index_of_isIn h ho (isSeqnum_ackNumber _ _) hin
    have hle := h.outstanding_le
    rw [hdis] at hi
    exact lt_of_mem_updateWindowSlots (by omega) hi

/-! ## Whole runs -/

theorem afterRecvs_append (run : Sender × List Packet) (rs rs' : List Recv) :
    afterRecvs cfg run (rs ++ rs') = afterRecvs cfg (afterRecvs cfg run rs) rs' := by
  induction rs generalizing run with
  | nil => rfl
  | cons r rs ih =>
    rw [List.cons_append, afterRecvs, afterRecvs]
    by_cases hpc : run.1.pc = .transfer
    · rw [if_pos hpc, if_pos hpc]
      exact ih _
    · rw [if_neg hpc, if_neg hpc]
      cases rs' with
      | nil => rfl
      | cons r' rs' => rw [afterRecvs, if_neg hpc]

/-- The base of the window only moves forward. -/
theorem Run.shift_le {sent : List Packet} (h : Run cfg start x sent o) (rs : List Recv) :
    x.shift ≤ (Sender.afterRecvs cfg (x, sent) rs).1.shift := by
  induction rs generalizing x sent o with
  | nil => exact Nat.le_refl _
  | cons r rs ih =>
    rw [Sender.afterRecvs]
    by_cases hpc : x.pc = .transfer
    · rw [if_pos hpc]
      obtain ⟨_, hadv, _⟩ := transferRecv_cases h.aligned (h.outstanding_pos hpc) r
      obtain ⟨o', h'⟩ := h.recv hpc r
      exact Nat.le_trans hadv.shift_le (ih h')
    · rw [if_neg hpc]

end Sender

/-- The window of the sender is safe against any peer: in either mode, from
every number of the ring, whatever `recv_packet` reports. -/
theorem sender_window_safe (cfg : SenderConfig) (x : Sender) (hstart : IsSeqnum x.sqn) :
    Sender.WindowSafe cfg x := by
  obtain ⟨o, hrun⟩ := Sender.run_start cfg x rfl hstart
  have hall : ∀ rs, ∃ o', Sender.Run cfg x.sqn (Sender.transferRun cfg x rs).1
      (Sender.transferRun cfg x rs).2 o' := fun rs => hrun.afterRecvs rs
  constructor
  · intro rs
    obtain ⟨o', hrun'⟩ := hall rs
    exact hrun'.aligned.windowBounds
  · intro rs r hpc
    obtain ⟨o', hrun'⟩ := hall rs
    exact hrun'.aligned.loopHead_windowBounds (hrun'.outstanding_pos hpc) r
  · intro rs hpc
    obtain ⟨o', hrun'⟩ := hall rs
    exact hrun'.aligned.receiveBounds (hrun'.outstanding_pos hpc)
  · intro rs rs'
    obtain ⟨o', hrun'⟩ := hall rs
    show _ ≤ (Sender.afterRecvs cfg (Sender.transferStart cfg x) (rs ++ rs')).1.shift
    rw [Sender.afterRecvs_append]
    exact hrun'.shift_le rs'
  · intro rs p hp
    obtain ⟨o', hrun'⟩ := hall rs
    obtain ⟨k, hk, rfl⟩ := hrun'.data p hp
    have hsent := hrun'.aligned.sent_le
    obtain ⟨hinside, hlength⟩ := cfg.payload_inside (show k < cfg.npacket by omega)
    exact ⟨k, by omega, rfl, hinside, hlength⟩

/-- A transfer of one packet from the largest number of the ring. -/
theorem sender_window_safe_lastNumber :
    Sender.WindowSafe (oneByte .sr).sender
      ⟨.established, false, 0, 0x7fffffff, 0x7fffffff, 0, []⟩ :=
  sender_window_safe (oneByte .sr).sender ⟨.established, false, 0, 0x7fffffff, 0x7fffffff, 0, []⟩
    (by unfold IsSeqnum; decide)

end NetLabs.Rtp
