import NetLabs.Rtp.Transfer

/-!
# Cutting the file into packets

The last packet gets the remainder `fsize % PAYLOAD_MAX` as its length.  That
is the rest of the file, unless the file is a non-empty multiple of
`PAYLOAD_MAX`: then the remainder is 0 and the last packet carries nothing.

* `payload_eq_segment` compares the payloads with the segments of the file.
* `Run` is the state of the sender inside `transfer_data` together with all it
  has sent, `run_afterRecvs` the invariant of every run, and `exists_run_all`
  a run that sends every packet.
* `segmentation_lossless_iff` puts these together.
-/

namespace NetLabs.Rtp

open NetLabs.Lib

namespace SenderConfig

variable (cfg : SenderConfig)

/-- Bytes `[k * PAYLOAD_MAX, min ((k + 1) * PAYLOAD_MAX) fsize)` of the file. -/
def segment (k : Nat) : List UInt8 :=
  (cfg.file.drop (k * payloadMax)).take (min ((k + 1) * payloadMax) cfg.fsize - k * payloadMax)

variable {cfg}

theorem buf_eq_file (hfile : cfg.file.length ≤ maxbuf) : cfg.buf = cfg.file :=
  List.take_of_length_le hfile

/-- The lengths agree for every packet, or the last one is empty. -/
theorem payload_eq_segment (hfile : cfg.file.length ≤ maxbuf)
    (hsize : cfg.fsize = 0 ∨ cfg.fsize % payloadMax ≠ 0) {k : Nat} (hk : k < cfg.npacket) :
    cfg.payload k = cfg.segment k := by
  have hcount : cfg.npacket = (cfg.fsize + payloadMax - 1) / payloadMax := rfl
  have hlength : cfg.dsize k = min ((k + 1) * payloadMax) cfg.fsize - k * payloadMax := by
    unfold dsize tsize
    simp only [payloadMax] at *
    split <;> omega
  rw [payload, segment, hlength, buf_eq_file hfile]

/-- For a non-empty multiple of `PAYLOAD_MAX` the last packet is empty and the
last segment is not. -/
theorem last_payload_ne (hfile : cfg.file.length ≤ maxbuf) (hpos : cfg.fsize ≠ 0)
    (hsize : cfg.fsize % payloadMax = 0) :
    0 < cfg.npacket ∧ cfg.payload (cfg.npacket - 1) = [] ∧
      cfg.segment (cfg.npacket - 1) ≠ [] := by
  have hcount : cfg.npacket = (cfg.fsize + payloadMax - 1) / payloadMax := rfl
  have hlength : cfg.file.length = cfg.fsize := by rw [fsize, buf_eq_file hfile]
  simp only [payloadMax] at hcount hsize
  refine ⟨by omega, by simp [payload, dsize, tsize, payloadMax, hsize], fun hnil => ?_⟩
  have hzero := congrArg List.length hnil
  simp only [segment, List.length_take, List.length_drop, hlength, payloadMax,
    List.length_nil] at hzero
  omega

/-- The segments make up the file. -/
theorem join_segment (hfile : cfg.file.length ≤ maxbuf) :
    joinBlocks cfg.segment cfg.npacket = cfg.file := by
  have hlength : cfg.file.length = cfg.fsize := by rw [fsize, buf_eq_file hfile]
  have hcount : cfg.npacket = (cfg.fsize + payloadMax - 1) / payloadMax := rfl
  have hfront : ∀ n, joinBlocks cfg.segment n = cfg.file.take (n * payloadMax) := by
    intro n
    induction n with
    | zero => simp [joinBlocks]
    | succ n ih =>
      rw [joinBlocks_succ, ih, segment, Nat.add_mul, Nat.one_mul]
      rcases Nat.lt_or_ge (n * payloadMax + payloadMax) cfg.fsize with hle | hge
      · rw [Nat.min_eq_left (by omega), Nat.add_sub_cancel_left, List.take_add]
      · rw [Nat.min_eq_right (by omega), ← hlength, ← List.length_drop, List.take_length,
          List.take_append_drop, List.take_of_length_le (by omega)]
  rw [hfront, List.take_of_length_le]
  simp only [payloadMax] at *
  omega

/-- The assigned payloads make up the file, unless the last one is empty. -/
theorem assigned_eq_file_iff (hfile : cfg.file.length ≤ maxbuf) :
    cfg.assigned = cfg.file ↔ cfg.fsize = 0 ∨ cfg.fsize % payloadMax ≠ 0 := by
  constructor
  · intro heq
    by_contra hsize
    simp only [not_or, not_not] at hsize
    obtain ⟨hpos, hlast, -⟩ := last_payload_ne hfile hsize.1 hsize.2
    obtain ⟨n, hn⟩ : ∃ n, cfg.npacket = n + 1 := ⟨cfg.npacket - 1, by omega⟩
    rw [hn, Nat.add_sub_cancel] at hlast
    have hfull : ∀ k < n, (cfg.payload k).length = payloadMax :=
      fun k hk => cfg.blocked_payload.full k (by omega)
    have hlength := congrArg List.length heq
    have hcount : cfg.npacket = (cfg.fsize + payloadMax - 1) / payloadMax := rfl
    have hsize' : cfg.file.length = cfg.fsize := by rw [fsize, buf_eq_file hfile]
    rw [assigned, hn, joinBlocks_succ, hlast, List.append_nil, joinBlocks_length hfull] at hlength
    simp only [payloadMax] at *
    omega
  · intro hsize
    rw [← join_segment hfile]
    exact joinBlocks_congr fun k hk => payload_eq_segment hfile hsize hk

end SenderConfig

/-! ## Runs of `transfer_data` -/

namespace Sender

variable (cfg : SenderConfig)

/-- `transfer_data` fed with receive outcomes, and all that it sends.  Outcomes
that come after it has returned are not read. -/
def afterRecvs : Sender × List Packet → List Recv → Sender × List Packet
  | run, [] => run
  | (x, sent), r :: rs =>
    if x.pc = .transfer then
      let (x', more) := transferRecv cfg x r
      afterRecvs (x', sent ++ more) rs
    else
      (x, sent)

/-- A run of `transfer_data` from its entry. -/
def transferRun (x : Sender) (rs : List Recv) : Sender × List Packet :=
  afterRecvs cfg (transferStart cfg x) rs

/-- What a run has sent so far: exactly the packets up to the outstanding ones. -/
structure Run (start : UInt32) (x : Sender) (sent : List Packet) (o : Nat) : Prop where
  aligned : Aligned cfg start x o
  stopped : Stopped cfg x o
  data : ∀ p ∈ sent, ∃ k < x.shift + o, p = cfg.dataPacket (seqnumAdd start k) k
  all : ∀ k < x.shift + o, cfg.dataPacket (seqnumAdd start k) k ∈ sent

variable {cfg} {start : UInt32}

theorem run_start (cfg : SenderConfig) (x : Sender) (hsqn : x.sqn = start) (hstart : IsSeqnum start) :
    ∃ o, Run cfg start (transferStart cfg x).1 (transferStart cfg x).2 o := by
  obtain ⟨o, hadv, hshift, _⟩ := transferLoop_advance (aligned_start cfg x hsqn hstart)
  exact ⟨o, hadv.aligned, hadv.stopped, hadv.data, fun k hk => hadv.fresh k (by simp) hk⟩

/-- A run that stands at a receive has packets outstanding. -/
theorem Run.outstanding_pos {x : Sender} {sent : List Packet} {o : Nat}
    (h : Run cfg start x sent o) (hpc : x.pc = .transfer) : 0 < o := by
  rcases h.stopped with ⟨_, ho⟩ | ⟨hpc', _⟩
  · exact ho
  · rw [hpc] at hpc'
    cases hpc'

/-- One receive keeps the invariant of the run. -/
theorem Run.recv {x : Sender} {sent : List Packet} {o : Nat} (h : Run cfg start x sent o)
    (hpc : x.pc = .transfer) (r : Recv) :
    ∃ o', Run cfg start (transferRecv cfg x r).1 (sent ++ (transferRecv cfg x r).2) o' := by
  obtain ⟨o', hadv, _⟩ := transferRecv_cases h.aligned (h.outstanding_pos hpc) r
  have hle := hadv.sent_le
  refine ⟨o', hadv.aligned, hadv.stopped, fun p hp => ?_, fun k hk => ?_⟩
  · rcases List.mem_append.mp hp with hp | hp
    · obtain ⟨k, hk, rfl⟩ := h.data p hp
      exact ⟨k, by omega, rfl⟩
    · exact hadv.data p hp
  · rcases Nat.lt_or_ge k (x.shift + o) with hlt | hge
    · exact List.mem_append_left _ (h.all k hlt)
    · exact List.mem_append_right _ (hadv.fresh k hge hk)

/-- The invariant holds after any receive outcomes. -/
theorem Run.afterRecvs {x : Sender} {sent : List Packet} {o : Nat} (h : Run cfg start x sent o)
    (rs : List Recv) :
    ∃ o', Run cfg start (afterRecvs cfg (x, sent) rs).1 (afterRecvs cfg (x, sent) rs).2 o' := by
  induction rs generalizing x sent o with
  | nil => exact ⟨o, h⟩
  | cons r rs ih =>
    rw [Sender.afterRecvs]
    split
    · rename_i hpc
      obtain ⟨o', h'⟩ := h.recv hpc r
      exact ih h'
    · exact ⟨o, h⟩

/-- The transfer starts at the first packet. -/
theorem transferStart_shift (cfg : SenderConfig) (x : Sender) (hsqn : x.sqn = start)
    (hstart : IsSeqnum start) : (transferStart cfg x).1.shift = 0 := by
  obtain ⟨_, _, hshift, _⟩ := transferLoop_advance (aligned_start cfg x hsqn hstart)
  exact hshift

/-- Every packet of the file is outstanding at some receive of some run: the
first outstanding packet is acknowledged again and again. -/
theorem Run.exists_outstanding {x : Sender} {sent : List Packet} {o : Nat}
    (h : Run cfg start x sent o) {k : Nat} (hk : k < cfg.npacket) (hle : x.shift ≤ k) :
    ∃ rs o', Run cfg start (Sender.afterRecvs cfg (x, sent) rs).1
        (Sender.afterRecvs cfg (x, sent) rs).2 o' ∧
      (Sender.afterRecvs cfg (x, sent) rs).1.pc = .transfer ∧
      (Sender.afterRecvs cfg (x, sent) rs).1.shift ≤ k ∧
      k < (Sender.afterRecvs cfg (x, sent) rs).1.shift + o' := by
  induction hn : cfg.npacket - x.shift using Nat.strongRecOn generalizing x sent o with
  | ind n ih =>
    rcases h.stopped with ⟨hpc, ho⟩ | ⟨_, _, hshift⟩
    · by_cases hin : k < x.shift + o
      · exact ⟨[], o, h, hpc, hle, hin⟩
      · have hsent := h.aligned.sent_le
        obtain ⟨mov, hmov, hshift, hpos⟩ := transferRecv_shift h.aligned ho
        have hmoves := hpos (Or.inl rfl)
        rw [Nat.add_zero] at hshift
        obtain ⟨o', h'⟩ := h.recv hpc (.ok (ackFor cfg.mode start x.shift))
        obtain ⟨rs, o'', hrs⟩ := ih _ (by omega) h' (by omega) rfl
        refine ⟨.ok (ackFor cfg.mode start x.shift) :: rs, o'', ?_⟩
        rw [Sender.afterRecvs, if_pos hpc]
        exact hrs
    · omega

end Sender

/-! ## The main result -/

/-- Every packet of every run carries the segment of its number. -/
def SendsSegments (cfg : SenderConfig) (start : UInt32) : Prop :=
  ∀ (x : Sender) (rs : List Recv), x.sqn = start → ∀ p ∈ (Sender.transferRun cfg x rs).2,
    ∃ k < cfg.npacket, p = ⟨seqnumAdd start k, 0, cfg.segment k⟩

theorem sendsSegments_iff (cfg : SenderConfig) {start : UInt32} (hstart : IsSeqnum start)
    (hfile : cfg.file.length ≤ maxbuf) :
    SendsSegments cfg start ↔ cfg.fsize = 0 ∨ cfg.fsize % payloadMax ≠ 0 := by
  constructor
  · intro hsends
    by_contra hsize
    simp only [not_or, not_not] at hsize
    obtain ⟨hpos, hlast, hne⟩ := SenderConfig.last_payload_ne hfile hsize.1 hsize.2
    let x : Sender := ⟨.established, false, 0, start, start, 0, []⟩
    obtain ⟨o, hrun⟩ := Sender.run_start cfg x rfl hstart
    have hshift := Sender.transferStart_shift cfg x rfl hstart
    obtain ⟨rs, o', hrun', _, _, hlt⟩ :=
      hrun.exists_outstanding (k := cfg.npacket - 1) (by omega) (by omega)
    obtain ⟨k, hk, heq⟩ := hsends x rs rfl _ (hrun'.all (cfg.npacket - 1) hlt)
    have hn := cfg.npacket_le
    have hindex : cfg.npacket - 1 = k :=
      seqnumAdd_inj (by omega) (by omega) (congrArg Packet.seqNum heq)
    have hpayload : cfg.payload (cfg.npacket - 1) = cfg.segment k := congrArg Packet.payload heq
    rw [← hindex, hlast] at hpayload
    exact hne hpayload.symm
  · intro hsize x rs hsqn p hp
    obtain ⟨o, hrun⟩ := Sender.run_start cfg x hsqn hstart
    obtain ⟨o', hrun'⟩ := hrun.afterRecvs rs
    obtain ⟨k, hk, rfl⟩ := hrun'.data p hp
    have hle := hrun'.aligned.sent_le
    exact ⟨k, by omega, by
      rw [SenderConfig.dataPacket, SenderConfig.payload_eq_segment hfile hsize (by omega)]⟩

/-- Cutting the file into packets is lossless exactly for an empty file and for
files that are no multiple of `PAYLOAD_MAX`.  For these every packet of every
run of `transfer_data` carries the segment of its number, and the payloads make
up the file.  For all others both fail. -/
theorem segmentation_lossless_iff (cfg : SenderConfig) {start : UInt32} (hstart : IsSeqnum start)
    (hfile : cfg.file.length ≤ maxbuf) :
    (SendsSegments cfg start ↔ cfg.fsize = 0 ∨ cfg.fsize % payloadMax ≠ 0) ∧
    ((List.range cfg.npacket).flatMap cfg.payload = cfg.file ↔
      cfg.fsize = 0 ∨ cfg.fsize % payloadMax ≠ 0) :=
  ⟨sendsSegments_iff cfg hstart hfile, SenderConfig.assigned_eq_file_iff hfile⟩

/-- A file of one byte is cut losslessly. -/
theorem segmentation_lossless_oneByte :
    SendsSegments (oneByte .sr).sender 0 ∧
      (List.range (oneByte .sr).sender.npacket).flatMap (oneByte .sr).sender.payload = [7] := by
  have hstart : IsSeqnum 0 := by unfold IsSeqnum; decide
  have h := segmentation_lossless_iff (oneByte .sr).sender hstart (by decide)
  have hsize : (oneByte .sr).sender.fsize % payloadMax ≠ 0 := by decide
  exact ⟨h.1.mpr (Or.inr hsize), h.2.mpr (Or.inr hsize)⟩

/-- A file of exactly `PAYLOAD_MAX` bytes. -/
def onePacket : SenderConfig where
  isn := getRandomSeqnum
  file := List.replicate payloadMax 1
  wsize := 1
  wsize_pos := Nat.one_pos
  mode := .sr
  ldebug := false

/-- Its only packet is sent empty, so the payloads do not make up the file. -/
theorem onePacket_sent_empty :
    onePacket.npacket = 1 ∧
      (Sender.transferRun onePacket ⟨.established, false, 0, 0, 0, 0, []⟩ []).2 = [⟨0, 0, []⟩] ∧
      onePacket.segment 0 = List.replicate payloadMax 1 ∧
      ¬ SendsSegments onePacket 0 ∧
      (List.range onePacket.npacket).flatMap onePacket.payload ≠ onePacket.file := by
  have hone : onePacket.npacket = 1 := by decide +kernel
  have hsent : (Sender.transferRun onePacket ⟨.established, false, 0, 0, 0, 0, []⟩ []).2 =
      [⟨0, 0, []⟩] := by decide +kernel
  have hsegment : onePacket.segment 0 = List.replicate payloadMax 1 := by decide +kernel
  refine ⟨hone, hsent, hsegment, fun hsends => ?_, by decide +kernel⟩
  obtain ⟨k, hk, heq⟩ := hsends ⟨.established, false, 0, 0, 0, 0, []⟩ [] rfl ⟨0, 0, []⟩
    (by rw [hsent]; exact List.mem_singleton_self _)
  have hzero : k = 0 := by omega
  subst hzero
  have hlength := congrArg (fun p => p.payload.length) heq
  simp only [hsegment, List.length_replicate, List.length_nil, payloadMax] at hlength
  omega

end NetLabs.Rtp
