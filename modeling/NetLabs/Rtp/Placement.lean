import NetLabs.Rtp.Rejection

/-!
# Where the receiver puts a packet

`place` is the number of `PAYLOAD_MAX` blocks in front of the copy that the
receiver makes of an intact data packet, or nothing when the packet is not
accepted.  It is defined for any peer, honest or not.

* `recvData_of_place` and `recvData_of_not_place` say what one data packet does
  in terms of its place.
* `handled` lists the data packets of a run, each with the state that it meets.
* `forall_handled_iff` compares two properties of these steps under an
  invariant of the run.
-/

namespace NetLabs.Rtp

open NetLabs.Lib

namespace Receiver

/-- The place that a data packet is copied to, counted in packets.  In selective
repeat it is `sqn_dis(wbase, packet.rtp.seq_num) + shift` in the branch that
accepts into the window, in go-back-N the old value of `shift`.  The place is the
number without the limits of an `int`: whether the offset still is one is a
property of the packet, `SlotInRange.offset` and `CopyInside.inside`. -/
def place (cfg : ReceiverConfig) (x : Receiver) (packet : Packet) : Option Nat :=
  match cfg.mode with
  | .sr =>
    if seqnumIsIn packet.seqNum (seqnumAdd x.wbase (-(cfg.wsize : Int))) x.wbase then none
    else if seqnumIsIn packet.seqNum x.wbase (seqnumAdd x.wbase cfg.wsize) then
      some (sqnDis x.wbase packet.seqNum + x.shift)
    else none
  | .gbn => if packet.seqNum = x.sqn then some x.shift else none

/-- The number of bytes to write after a packet of `length` bytes at place `k`. -/
def extend (mode : Mode) (fsize k length : Nat) : Nat :=
  match mode with
  | .sr => max (k * payloadMax + length) fsize
  | .gbn => fsize + length

variable {cfg : ReceiverConfig} {x : Receiver} {p : Packet}

/-! ## One data packet -/

theorem recvData_of_not_place (h : place cfg x p = none) : (recvData cfg x p).1 = x := by
  unfold place at h
  unfold recvData
  cases hmode : cfg.mode with
  | sr =>
    simp only [hmode] at h
    show (recvSr cfg x p).1 = x
    unfold recvSr
    split at h
    · rw [if_pos ‹_›]
    · rw [if_neg ‹_›]
      split at h
      · cases h
      · rw [if_neg ‹_›]
  | gbn =>
    simp only [hmode] at h
    show (recvGbn x p).1 = x
    unfold recvGbn
    split at h
    · cases h
    · rw [if_neg ‹_›]

/-- An accepted packet of selective repeat. -/
theorem recvData_sr {k : Nat} (hmode : cfg.mode = .sr) (h : place cfg x p = some k) :
    (recvData cfg x p).1 = acceptSr cfg x p ∧ k = sqnDis x.wbase p.seqNum + x.shift := by
  simp only [place, hmode] at h
  simp only [recvData, hmode, recvSr]
  split at h
  · cases h
  · rename_i hbehind
    rw [if_neg hbehind]
    split at h
    · rename_i hin
      rw [if_pos hin]
      exact ⟨rfl, (Option.some.inj h).symm⟩
    · cases h

/-- An accepted packet of go-back-N. -/
theorem recvData_gbn {k : Nat} (hmode : cfg.mode = .gbn) (h : place cfg x p = some k) :
    (recvData cfg x p).1 = acceptGbn x p ∧ k = x.shift ∧ p.seqNum = x.sqn := by
  simp only [place, hmode] at h
  simp only [recvData, hmode, recvGbn]
  split at h
  · rename_i hseq
    rw [if_pos hseq]
    exact ⟨rfl, (Option.some.inj h).symm, hseq⟩
  · cases h

/-- An accepted packet is copied to its place, and counts. -/
theorem recvData_of_place {k : Nat} (h : place cfg x p = some k) :
    (recvData cfg x p).1.buf = x.buf.memcpy (k * payloadMax) p.payload ∧
      (recvData cfg x p).1.fsize = extend cfg.mode x.fsize k p.length := by
  cases hmode : cfg.mode with
  | sr =>
    obtain ⟨heq, rfl⟩ := recvData_sr hmode h
    rw [heq]
    refine ⟨rfl, ?_⟩
    simp only [acceptSr, extend]
    split <;> omega
  | gbn =>
    obtain ⟨heq, rfl, _⟩ := recvData_gbn hmode h
    rw [heq]
    exact ⟨rfl, rfl⟩

theorem recvData_pc (cfg : ReceiverConfig) (x : Receiver) (p : Packet) :
    (recvData cfg x p).1.pc = x.pc := by
  cases hplace : place cfg x p with
  | none => rw [recvData_of_not_place hplace]
  | some k =>
    cases hmode : cfg.mode with
    | sr =>
      rw [(recvData_sr hmode hplace).1]
      rfl
    | gbn =>
      rw [(recvData_gbn hmode hplace).1]
      rfl

/-! ## The data packets of a run -/

/-- An outcome that reaches the branches of the two modes. -/
def dataPacket? : Recv → Option Packet
  | .ok packet => if packet.flags = 0 then some packet else none
  | _ => none

/-- The data packets that a run of the loop handles, each with the state that
it meets. -/
def handled (cfg : ReceiverConfig) : Receiver → List Recv → List (Receiver × Packet)
  | _, [] => []
  | x, r :: rs =>
    if x.pc = .transfer then
      match dataPacket? r with
      | some packet => (x, packet) :: handled cfg (transferRecv cfg x r).1 rs
      | none => handled cfg (transferRecv cfg x r).1 rs
    else
      []

/-- The accepted packets of a run, in the order of their arrival: the place and
the payload of each. -/
def accepted (cfg : ReceiverConfig) (x : Receiver) (rs : List Recv) : List (Nat × List UInt8) :=
  (handled cfg x rs).filterMap fun e => (place cfg e.1 e.2).map fun k => (k, e.2.payload)

theorem handled_ended (hpc : x.pc ≠ .transfer) (rs : List Recv) : handled cfg x rs = [] := by
  cases rs with
  | nil => rfl
  | cons r rs => rw [handled, if_neg hpc]

/-- One outcome in the loop: it ends the loop, it is ignored, or it is a data
packet. -/
theorem handled_cases (cfg : ReceiverConfig) (hpc : x.pc = .transfer) (r : Recv) (rs : List Recv) :
    ((transferRecv cfg x r).1 = transferEnd x ∧ handled cfg x (r :: rs) = []) ∨
      ((transferRecv cfg x r).1 = x ∧ handled cfg x (r :: rs) = handled cfg x rs) ∨
      ∃ p, r = .ok p ∧ (transferRecv cfg x r).1 = (recvData cfg x p).1 ∧
        handled cfg x (r :: rs) = (x, p) :: handled cfg (recvData cfg x p).1 rs := by
  have hended : ∀ rs, handled cfg (transferEnd x) rs = [] :=
    fun rs => handled_ended (show ReceiverPc.finWait ≠ .transfer by decide) rs
  rw [handled, if_pos hpc]
  cases r with
  | timeout => exact Or.inl ⟨rfl, hended rs⟩
  | rejected p =>
    by_cases hfin : p.flags &&& rtpFin ≠ 0
    · rw [transferRecv_rejected_fin x hfin]
      exact Or.inl ⟨rfl, hended rs⟩
    · rw [transferRecv_rejected x (not_not.mp hfin)]
      exact Or.inr (Or.inl ⟨rfl, rfl⟩)
  | ok p =>
    by_cases hflags : p.flags = 0
    · have hdata : dataPacket? (.ok p) = some p := if_pos hflags
      have hstep : transferRecv cfg x (.ok p) = recvData cfg x p := by
        rw [transferRecv, hflags, if_neg (by decide), if_neg (by decide)]
      rw [hdata, hstep]
      exact Or.inr (Or.inr ⟨p, rfl, rfl, rfl⟩)
    · have hdata : dataPacket? (.ok p) = none := if_neg hflags
      rw [hdata]
      by_cases hfin : p.flags &&& rtpFin ≠ 0
      · have hstep : transferRecv cfg x (.ok p) = (transferEnd x, []) := by
          rw [transferRecv, if_pos hfin]
        rw [hstep]
        exact Or.inl ⟨rfl, hended rs⟩
      · have hstep : transferRecv cfg x (.ok p) = (x, []) := by
          rw [transferRecv, if_neg hfin, if_pos hflags]
        rw [hstep]
        exact Or.inr (Or.inl ⟨rfl, rfl⟩)

/-- Two properties of the steps agree on a whole run when they agree under an
invariant that each step with the first property keeps. -/
theorem forall_handled_iff {P Q : Receiver → Packet → Prop} {I : Receiver → Prop}
    (hiff : ∀ x p, I x → (P x p ↔ Q x p))
    (hkeep : ∀ x p, I x → P x p → I (recvData cfg x p).1) (hx : I x) (rs : List Recv) :
    (∀ e ∈ handled cfg x rs, P e.1 e.2) ↔ ∀ e ∈ handled cfg x rs, Q e.1 e.2 := by
  induction rs generalizing x with
  | nil => simp [handled]
  | cons r rs ih =>
    by_cases hpc : x.pc = .transfer
    · rcases handled_cases cfg hpc r rs with ⟨_, heq⟩ | ⟨_, heq⟩ | ⟨p, _, _, heq⟩
      · rw [heq]
        simp
      · rw [heq]
        exact ih hx
      · rw [heq, List.forall_mem_cons, List.forall_mem_cons, ← hiff x p hx]
        constructor
        · rintro ⟨hp, hrest⟩
          exact ⟨hp, (ih (hkeep x p hx hp)).mp hrest⟩
        · rintro ⟨hp, hrest⟩
          exact ⟨hp, (ih (hkeep x p hx hp)).mpr hrest⟩
    · rw [handled_ended hpc]
      simp

end Receiver

end NetLabs.Rtp
