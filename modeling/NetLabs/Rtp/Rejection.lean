import NetLabs.Rtp.Network
import NetLabs.Rtp.Wire

/-!
# Rejected datagrams in the receiver's loop

The loop of the receiver's `transfer_data` tests
`scode == -2 || packet.rtp.flags & RTP_FIN` before it looks at the status code.
A rejected datagram has been written over the struct by then, so it ends the
transfer when the flags byte in the struct has the FIN bit.

* `rejectsInert_iff` is the exact condition for one arrival in one state.
* `afterRecvs_filter` carries it through whole runs: under the condition the
  run is the one in which the rejected datagrams never arrived.
-/

namespace NetLabs.Rtp

/-- What ends one call of `recv_packet`. -/
inductive Arrival where
  | timeout
  | datagram (bytes : List UInt8)
  deriving DecidableEq, Repr

/-- One call of `recv_packet` with the struct that the caller keeps. -/
def Arrival.recv (m : PacketMem) : Arrival → Recv × PacketMem
  | .timeout => (.timeout, m)
  | .datagram bytes => recvPacket m bytes

/-- The outcomes of successive calls. -/
def outcomes (m : PacketMem) : List Arrival → List Recv
  | [] => []
  | a :: as => (a.recv m).1 :: outcomes (a.recv m).2 as

def Recv.isRejected : Recv → Bool
  | .rejected _ => true
  | _ => false

/-- If the arrival is rejected, the flags byte that it leaves in the struct has
no FIN bit.  That byte is the one of the datagram, or an old one when the
datagram ends before it. -/
def FinClear (m : PacketMem) (a : Arrival) : Prop :=
  ∀ bytes, a = .datagram bytes → (recvPacket m bytes).1.isRejected = true →
    bytes.getD 10 m.flags &&& rtpFin = 0

namespace Receiver

variable (cfg : ReceiverConfig)

/-- A rejected arrival is inert, and only a timeout or an intact FIN ends the
loop. -/
structure RejectsInert (x : Receiver) (m : PacketMem) (a : Arrival) : Prop where
  inert : (a.recv m).1.isRejected = true →
    (transferRecv cfg x (a.recv m).1).1.window = x.window ∧
    (transferRecv cfg x (a.recv m).1).1.wbase = x.wbase ∧
    (transferRecv cfg x (a.recv m).1).1.sqn = x.sqn ∧
    (transferRecv cfg x (a.recv m).1).1.shift = x.shift ∧
    (transferRecv cfg x (a.recv m).1).1.fsize = x.fsize ∧
    (transferRecv cfg x (a.recv m).1).1.buf = x.buf ∧
    (transferRecv cfg x (a.recv m).1).2 = [] ∧
    (transferRecv cfg x (a.recv m).1).1.pc = .transfer
  left : (transferRecv cfg x (a.recv m).1).1.pc ≠ .transfer →
    a = .timeout ∨ ∃ p, (a.recv m).1 = .ok p ∧ p.flags &&& rtpFin ≠ 0

variable {cfg}

/-- A rejected datagram shows the flags byte of the struct. -/
theorem flags_of_rejected {m : PacketMem} {bytes : List UInt8} {p : Packet}
    (h : (recvPacket m bytes).1 = .rejected p) : p.flags = bytes.getD 10 m.flags := by
  obtain ⟨buf, _, hmem, hrej | hok⟩ := recvPacket_cases m bytes
  · rw [h] at hrej
    have hflags := flags_recvPacket m bytes
    rw [hmem] at hflags
    rw [Recv.rejected.inj hrej, ← hflags]
    rfl
  · rw [h] at hok
    cases hok

theorem transferRecv_rejected (x : Receiver) {p : Packet} (h : p.flags &&& rtpFin = 0) :
    transferRecv cfg x (.rejected p) = (x, []) := by
  rw [transferRecv, if_neg (not_not.mpr h)]

theorem transferRecv_rejected_fin (x : Receiver) {p : Packet} (h : p.flags &&& rtpFin ≠ 0) :
    transferRecv cfg x (.rejected p) = (transferEnd x, []) := by
  rw [transferRecv, if_pos h]

/-- An intact packet without the FIN bit keeps the loop going. -/
theorem transferRecv_ok_pc (x : Receiver) {p : Packet} (h : p.flags &&& rtpFin = 0) :
    (transferRecv cfg x (.ok p)).1.pc = x.pc := by
  rw [transferRecv, if_neg (not_not.mpr h)]
  by_cases hflags : p.flags ≠ 0
  · rw [if_pos hflags]
  · rw [if_neg hflags]
    unfold recvData
    split
    · unfold recvSr
      split
      · rfl
      · split <;> rfl
    · unfold recvGbn
      split <;> rfl

/-- One arrival in one state of the loop. -/
theorem rejectsInert_iff {x : Receiver} (hpc : x.pc = .transfer) (m : PacketMem) (a : Arrival) :
    RejectsInert cfg x m a ↔ FinClear m a := by
  constructor
  · intro h bytes ha hrejected
    subst ha
    show bytes.getD 10 m.flags &&& rtpFin = 0
    cases hrecv : (recvPacket m bytes).1 with
    | timeout | ok =>
      rw [hrecv] at hrejected
      cases hrejected
    | rejected p =>
      rw [← flags_of_rejected hrecv]
      by_contra hfin
      have hinert := h.inert hrejected
      have houtcome : ((Arrival.datagram bytes).recv m).1 = .rejected p := hrecv
      rw [houtcome, transferRecv_rejected_fin x hfin] at hinert
      obtain ⟨_, _, _, _, _, _, _, hpc'⟩ := hinert
      cases hpc'
  · intro h
    cases a with
    | timeout => exact ⟨nofun, fun _ => Or.inl rfl⟩
    | datagram bytes =>
      show RejectsInert cfg x m (.datagram bytes)
      have houtcome : ((Arrival.datagram bytes).recv m).1 = (recvPacket m bytes).1 := rfl
      cases hrecv : (recvPacket m bytes).1 with
      | timeout =>
        obtain ⟨_, _, _, hrej | hok⟩ := recvPacket_cases m bytes
        · rw [hrecv] at hrej
          cases hrej
        · rw [hrecv] at hok
          cases hok
      | rejected p =>
        have hclear := h bytes rfl (by rw [hrecv]; rfl)
        rw [← flags_of_rejected hrecv] at hclear
        have hstep : transferRecv cfg x (.rejected p) = (x, []) := transferRecv_rejected x hclear
        rw [← hrecv, ← houtcome] at hstep
        constructor
        · intro _
          rw [hstep]
          exact ⟨rfl, rfl, rfl, rfl, rfl, rfl, rfl, hpc⟩
        · intro hleft
          rw [hstep] at hleft
          exact absurd hpc hleft
      | ok p =>
        constructor
        · intro hrejected
          rw [houtcome, hrecv] at hrejected
          cases hrejected
        · intro hleft
          rw [houtcome, hrecv] at hleft ⊢
          by_cases hfin : p.flags &&& rtpFin = 0
          · rw [transferRecv_ok_pc x hfin] at hleft
            exact absurd hpc hleft
          · exact Or.inr ⟨p, rfl, hfin⟩

/-! ## Whole runs -/

variable (cfg) in
/-- The loop fed with the outcomes of `recv_packet`, and the ACKs it sends.
Outcomes that come after it has ended are not read. -/
def afterRecvs : Receiver → List Recv → Receiver × List Packet
  | x, [] => (x, [])
  | x, r :: rs =>
    if x.pc = .transfer then
      let (x', sent) := transferRecv cfg x r
      let (y, more) := afterRecvs x' rs
      (y, sent ++ more)
    else
      (x, [])

theorem afterRecvs_cons {x : Receiver} (hpc : x.pc = .transfer) (r : Recv) (rs : List Recv) :
    afterRecvs cfg x (r :: rs) =
      ((afterRecvs cfg (transferRecv cfg x r).1 rs).1,
        (transferRecv cfg x r).2 ++ (afterRecvs cfg (transferRecv cfg x r).1 rs).2) := by
  rw [afterRecvs, if_pos hpc]

theorem afterRecvs_ended {x : Receiver} (hpc : x.pc ≠ .transfer) (rs : List Recv) :
    afterRecvs cfg x rs = (x, []) := by
  cases rs with
  | nil => rfl
  | cons r rs => rw [afterRecvs, if_neg hpc]

/-- Rejected outcomes without the FIN bit can be left out of a run. -/
theorem afterRecvs_filter (x : Receiver) (rs : List Recv)
    (h : ∀ p, .rejected p ∈ rs → p.flags &&& rtpFin = 0) :
    afterRecvs cfg x rs = afterRecvs cfg x (rs.filter fun r => !r.isRejected) := by
  induction rs generalizing x with
  | nil => rfl
  | cons r rs ih =>
    have hrest := fun y => ih y fun p hp => h p (List.mem_cons_of_mem _ hp)
    by_cases hpc : x.pc = .transfer
    · cases r with
      | rejected p =>
        have hstep : transferRecv cfg x (.rejected p) = (x, []) :=
          transferRecv_rejected x (h p List.mem_cons_self)
        rw [afterRecvs_cons hpc, hstep, List.filter_cons_of_neg (by simp [Recv.isRejected])]
        exact hrest x
      | timeout =>
        rw [List.filter_cons_of_pos (by rfl), afterRecvs_cons hpc, afterRecvs_cons hpc, hrest]
      | ok p =>
        rw [List.filter_cons_of_pos (by rfl), afterRecvs_cons hpc, afterRecvs_cons hpc, hrest]
    · rw [afterRecvs_ended hpc, afterRecvs_ended hpc]

/-- A run that has ended has read a timeout or an intact FIN. -/
theorem afterRecvs_left {x : Receiver} (hpc : x.pc = .transfer) (rs : List Recv)
    (h : ∀ p, .rejected p ∈ rs → p.flags &&& rtpFin = 0)
    (hleft : (afterRecvs cfg x rs).1.pc ≠ .transfer) :
    .timeout ∈ rs ∨ ∃ p, .ok p ∈ rs ∧ p.flags &&& rtpFin ≠ 0 := by
  induction rs generalizing x with
  | nil => exact absurd hpc hleft
  | cons r rs ih =>
    have hrest : ∀ y : Receiver, y.pc = .transfer → (afterRecvs cfg y rs).1.pc ≠ .transfer →
        .timeout ∈ r :: rs ∨ ∃ p, .ok p ∈ r :: rs ∧ p.flags &&& rtpFin ≠ 0 := by
      intro y hy hyleft
      rcases ih hy (fun p hp => h p (List.mem_cons_of_mem _ hp)) hyleft with hmem | ⟨p, hmem, hfin⟩
      · exact Or.inl (List.mem_cons_of_mem _ hmem)
      · exact Or.inr ⟨p, List.mem_cons_of_mem _ hmem, hfin⟩
    rw [afterRecvs_cons hpc] at hleft
    cases r with
    | timeout => exact Or.inl List.mem_cons_self
    | rejected p =>
      rw [transferRecv_rejected x (h p List.mem_cons_self)] at hleft
      exact hrest x hpc hleft
    | ok p =>
      by_cases hfin : p.flags &&& rtpFin = 0
      · exact hrest _ ((transferRecv_ok_pc x hfin).trans hpc) hleft
      · exact Or.inr ⟨p, List.mem_cons_self, hfin⟩

end Receiver

/-- The rejected datagrams that the receiver's loop ignores.  In every state of
the loop, in either mode, an arrival is handled as it should be if and only if
a rejected datagram leaves a flags byte without the FIN bit in the struct.  A
whole run in which that is so for every rejected datagram is the run in which
these never arrived, and it ends by a timeout or an intact FIN only. -/
theorem rejected_inert_iff (cfg : ReceiverConfig) {x : Receiver} (hpc : x.pc = .transfer)
    (m : PacketMem) :
    (∀ a, Receiver.RejectsInert cfg x m a ↔ FinClear m a) ∧
    ∀ as, (∀ p, .rejected p ∈ outcomes m as → p.flags &&& rtpFin = 0) →
      Receiver.afterRecvs cfg x (outcomes m as) =
        Receiver.afterRecvs cfg x ((outcomes m as).filter fun r => !r.isRejected) ∧
      ((Receiver.afterRecvs cfg x (outcomes m as)).1.pc ≠ .transfer →
        .timeout ∈ outcomes m as ∨ ∃ p, .ok p ∈ outcomes m as ∧ p.flags &&& rtpFin ≠ 0) := by
  refine ⟨Receiver.rejectsInert_iff hpc m, ?_⟩
  intro as h
  exact ⟨Receiver.afterRecvs_filter x _ h, Receiver.afterRecvs_left hpc _ h⟩

/-- A struct of zeros. -/
def PacketMem.zero : PacketMem where
  bytes := List.replicate rtpPacketSize 0
  size_eq := List.length_replicate

/-- An ACK with a wrong checksum is ignored. -/
theorem rejected_inert_badAck :
    Receiver.RejectsInert (oneByte .sr).receiver
      (Receiver.transferStart (oneByte .sr).receiver Receiver.start) .zero
      (.datagram [0, 0, 0, 0, 0, 0, 1, 0, 0, 0, 2]) := by
  have h := rejected_inert_iff (oneByte .sr).receiver
    (x := Receiver.transferStart (oneByte .sr).receiver Receiver.start) rfl .zero
  refine (h.1 _).mpr ?_
  rintro bytes hbytes -
  cases hbytes
  decide

/-- Eleven bytes with a wrong checksum and the FIN bit in the flags byte. -/
def badFin : List UInt8 := [0, 0, 0, 0, 0, 0, 1, 0, 0, 0, 4]

/-- `recv_packet` rejects them, and the receiver leaves its loop and writes an
empty file before any data has come in. -/
theorem badFin_ends_transfer :
    (recvPacket .zero badFin).1 = .rejected ⟨0, rtpFin, []⟩ ∧
      (Receiver.transferRecv (oneByte .sr).receiver
        (Receiver.transferStart (oneByte .sr).receiver Receiver.start)
        (recvPacket .zero badFin).1).1.pc = .finWait ∧
      (Receiver.transferRecv (oneByte .sr).receiver
        (Receiver.transferStart (oneByte .sr).receiver Receiver.start)
        (recvPacket .zero badFin).1).1.file = some [] ∧
      ¬ Receiver.RejectsInert (oneByte .sr).receiver
        (Receiver.transferStart (oneByte .sr).receiver Receiver.start) .zero
        (.datagram badFin) := by
  have hrejected : (recvPacket .zero badFin).1 = .rejected ⟨0, rtpFin, []⟩ := by decide +kernel
  have houtcome : ((Arrival.datagram badFin).recv .zero).1 = .rejected ⟨0, rtpFin, []⟩ := hrejected
  rw [hrejected]
  refine ⟨rfl, rfl, rfl, ?_⟩
  intro h
  have hinert := h.inert (by rw [houtcome]; rfl)
  rw [houtcome] at hinert
  obtain ⟨_, _, _, _, _, _, _, hpc⟩ := hinert
  cases hpc

end NetLabs.Rtp
