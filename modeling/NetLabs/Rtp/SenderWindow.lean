import NetLabs.Rtp.Lifecycle

/-!
# The sender's window against any peer

`Aligned cfg start x o` says that the sender's numbers are packet indices
counted from `start`, with `o` packets outstanding.  It holds at every stop
inside `transfer_data`, whatever the peer sends, because an acknowledgement is
only used when it falls between `wbase` and `sqn`.

* `transferLoop_aligned` is the specification of the head of the loop.
* `slid_aligned` is the specification of the acknowledgement branch.
* `transferRecv_cases` says what one receive can do, and `step_data` carries
  the invariant through every step of the program.
-/

namespace NetLabs.Rtp

open NetLabs.Lib

namespace SenderConfig

variable (cfg : SenderConfig)

theorem fsize_le : cfg.fsize ≤ maxbuf := by
  unfold fsize buf
  simp

theorem npacket_le : cfg.npacket ≤ 1436 := by
  have h := cfg.fsize_le
  unfold npacket payloadMax
  unfold maxbuf at h
  omega

end SenderConfig

namespace Sender

variable (cfg : SenderConfig) (start : UInt32)

/-- The sender's numbers are indices counted from `start`, `o` packets are
outstanding, and only outstanding packets are marked in the window. -/
structure Aligned (x : Sender) (o : Nat) : Prop where
  wbase : x.wbase = seqnumAdd start x.shift
  sqn : x.sqn = seqnumAdd start (x.shift + o : Nat)
  outstanding_le : o ≤ cfg.wsize
  sent_le : x.shift + o ≤ cfg.npacket
  length : x.window.length = cfg.wsize
  slots : ∀ i, x.window[i]? = some true → i < o
  settled : Settled x.window
  gbn : cfg.mode = .gbn → x.window = List.replicate cfg.wsize false

variable {cfg start}

namespace Aligned

variable {x : Sender} {o : Nat}

theorem outstanding_lt (h : Aligned cfg start x o) : o < 2 ^ 31 := by
  have h1 := h.sent_le
  have h2 := cfg.npacket_le
  omega

/-- The number of outstanding packets is the distance of the two numbers. -/
theorem sqnDis_eq (h : Aligned cfg start x o) : sqnDis x.wbase x.sqn = o := by
  have ho := h.outstanding_lt
  rw [h.wbase, h.sqn, sqnDis_index _ _ (by omega) (by omega)]
  omega

/-- The alignment reads nothing but the window variables. -/
theorem congr {x' : Sender} (h : Aligned cfg start x o) (hsqn : x'.sqn = x.sqn)
    (hwbase : x'.wbase = x.wbase) (hshift : x'.shift = x.shift)
    (hwindow : x'.window = x.window) : Aligned cfg start x' o := by
  cases x
  cases x'
  simp only at hsqn hwbase hshift hwindow
  subst hsqn hwbase hshift hwindow
  exact { h with }

theorem wbase_eq_sqn_iff (h : Aligned cfg start x o) : x.wbase = x.sqn ↔ o = 0 := by
  constructor
  · intro heq
    have hdis := h.sqnDis_eq
    rw [heq, h.sqn, sqnDis_index _ _ (Nat.le_refl _) (by omega)] at hdis
    omega
  · rintro rfl
    rw [h.wbase, h.sqn, Nat.add_zero]

end Aligned

/-! ## The loops that send -/

/-- A batch is the next `min wsize (npacket - shift)` packets, in order. -/
theorem sendBatch_eq (cfg : SenderConfig) (start : UInt32) (shift fuel i : Nat) (hfuel : cfg.npacket ≤ shift + i + fuel) :
    sendBatch cfg shift fuel i (seqnumAdd start (shift + i : Nat)) =
      (seqnumAdd start (shift + i + min (cfg.wsize - i) (cfg.npacket - (shift + i)) : Nat),
        (List.range' i (min (cfg.wsize - i) (cfg.npacket - (shift + i)))).map fun j =>
          cfg.dataPacket (seqnumAdd start (shift + j : Nat)) (shift + j)) := by
  induction fuel generalizing i with
  | zero =>
    rw [sendBatch, show cfg.npacket - (shift + i) = 0 by omega]
    simp
  | succ fuel ih =>
    rw [sendBatch]
    split
    · rename_i hlt
      obtain ⟨hw, hn⟩ := hlt
      have hnext : seqnumAdd (seqnumAdd start (shift + i : Nat)) 1 =
          seqnumAdd start (shift + (i + 1) : Nat) := by
        rw [seqnumAdd_seqnumAdd]
        norm_cast
      have hcount : min (cfg.wsize - i) (cfg.npacket - (shift + i)) =
          min (cfg.wsize - (i + 1)) (cfg.npacket - (shift + (i + 1))) + 1 := by omega
      rw [hnext, ih (i + 1) (by omega), hcount, List.range'_succ, List.map_cons]
      simp only [Prod.mk.injEq, and_true]
      congr 2
      omega
    · rename_i hge
      have hcount : min (cfg.wsize - i) (cfg.npacket - (shift + i)) = 0 := by omega
      rw [hcount]
      simp

/-- Whatever is sent again is one of the packets from `i` on. -/
theorem mem_resend {x : Sender} {fuel i : Nat} {p : Packet} (hp : p ∈ resend cfg x fuel i) :
    ∃ j, j < i + fuel ∧ p = cfg.dataPacket (seqnumAdd x.wbase j) (x.shift + j) := by
  induction fuel generalizing i with
  | zero => simp [resend] at hp
  | succ fuel ih =>
    have hrest : p ∈ resend cfg x fuel (i + 1) →
        ∃ j, j < i + (fuel + 1) ∧ p = cfg.dataPacket (seqnumAdd x.wbase j) (x.shift + j) := by
      intro hp
      obtain ⟨j, hj, rfl⟩ := ih hp
      exact ⟨j, by omega, rfl⟩
    rw [resend] at hp
    split at hp
    · split at hp
      · exact hrest hp
      · rcases List.mem_cons.mp hp with rfl | hp
        · exact ⟨i, by omega, rfl⟩
        · exact hrest hp
    · simp at hp

/-! ## The head of the loop -/

/-- Where the loop can stop: at a receive with packets outstanding, or behind
the loop with everything acknowledged. -/
def Stopped (cfg : SenderConfig) (x : Sender) (o : Nat) : Prop :=
  x.pc = .transfer ∧ 0 < o ∨ x.pc = .transferred ∧ o = 0 ∧ x.shift = cfg.npacket

/-- The head of the loop sends exactly the packets that become outstanding. -/
theorem transferLoop_aligned {x : Sender} {o : Nat} (h : Aligned cfg start x o) :
    ∃ o', Aligned cfg start (transferLoop cfg x).1 o' ∧ Stopped cfg (transferLoop cfg x).1 o' ∧
      (transferLoop cfg x).1.shift = x.shift ∧ (transferLoop cfg x).1.window = x.window ∧
      o ≤ o' ∧
      ∀ p, p ∈ (transferLoop cfg x).2 ↔
        ∃ k, x.shift + o ≤ k ∧ k < x.shift + o' ∧ p = cfg.dataPacket (seqnumAdd start k) k := by
  have hsent := h.sent_le
  unfold transferLoop
  by_cases hmore : x.shift < cfg.npacket
  · rw [if_pos hmore]
    by_cases hbase : x.wbase = x.sqn
    · have ho : o = 0 := h.wbase_eq_sqn_iff.mp hbase
      subst ho
      have hw := cfg.wsize_pos
      have hbatch := sendBatch_eq cfg start x.shift (cfg.npacket - x.shift) 0 (by omega)
      rw [if_pos hbase, h.sqn, hbatch]
      refine ⟨min cfg.wsize (cfg.npacket - x.shift), ?_, Or.inl ⟨rfl, by omega⟩, rfl, rfl,
        by omega, ?_⟩
      · exact {
          wbase := h.wbase
          sqn := rfl
          outstanding_le := Nat.min_le_left _ _
          sent_le := by simp only; omega
          length := h.length
          slots := fun i hi => absurd (h.slots i hi) (Nat.not_lt_zero i)
          settled := h.settled
          gbn := h.gbn }
      · intro p
        simp only [List.mem_map, List.mem_range'_1]
        constructor
        · rintro ⟨j, hj, rfl⟩
          exact ⟨x.shift + j, by omega, by omega, rfl⟩
        · rintro ⟨k, hk, hlt, rfl⟩
          exact ⟨k - x.shift, by omega, by rw [show x.shift + (k - x.shift) = k by omega]⟩
    · have ho : o ≠ 0 := fun h0 => hbase (h.wbase_eq_sqn_iff.mpr h0)
      rw [if_neg hbase]
      refine ⟨o, { h with }, Or.inl ⟨rfl, by omega⟩, rfl, rfl, Nat.le_refl _, fun p => ?_⟩
      simp only [List.not_mem_nil, false_iff]
      rintro ⟨k, hk, hlt, -⟩
      omega
  · rw [if_neg hmore]
    refine ⟨o, { h with }, Or.inr ⟨rfl, by omega, by simp only; omega⟩, rfl, rfl, Nat.le_refl _,
      fun p => ?_⟩
    simp only [List.not_mem_nil, false_iff]
    rintro ⟨k, hk, hlt, -⟩
    omega

/-! ## Acknowledgements -/

/-- What an acknowledgement of packet `k` covers: the one packet in selective
repeat, everything up to `k` in go-back-N. -/
def covers (mode : Mode) (k : Nat) : Set Nat :=
  match mode with
  | .sr => {k}
  | .gbn => Set.Iio (k + 1)

/-- The number that an acknowledgement acknowledges. -/
def ackNumber (mode : Mode) (p : Packet) : UInt32 :=
  seqnumAdd p.seqNum (-((mode.toNat ^^^ 1 : Nat) : Int))

theorem isSeqnum_ackNumber (mode : Mode) (p : Packet) : IsSeqnum (ackNumber mode p) :=
  isSeqnum_seqnumAdd _ _

/-- The sender after an acknowledgement, before the head of the loop. -/
def slid (cfg : SenderConfig) (x : Sender) (seqnum : UInt32) : Sender :=
  { x with
    window := (acknowledge cfg x seqnum).2
    shift := x.shift + (acknowledge cfg x seqnum).1
    wbase := seqnumAdd x.wbase (acknowledge cfg x seqnum).1 }

/-- An acknowledgement that passes the test of the code is one of an
outstanding packet. -/
theorem exists_index_of_isIn {x : Sender} {o : Nat} (h : Aligned cfg start x o) (ho : 0 < o)
    {q : UInt32} (hq : IsSeqnum q) (hin : seqnumIsIn q x.wbase x.sqn = true) :
    ∃ d, d < o ∧ sqnDis x.wbase q = d ∧ q = seqnumAdd start (x.shift + d : Nat) := by
  have hwbase : IsSeqnum x.wbase := h.wbase ▸ isSeqnum_seqnumAdd _ _
  have hsqn : x.sqn = seqnumAdd x.wbase o := by
    rw [h.sqn, h.wbase, seqnumAdd_seqnumAdd]
    norm_cast
  rw [hsqn, seqnumIsIn_iff hq hwbase ho h.outstanding_lt] at hin
  have hahead := seqnumAdd_sqnDis hwbase hq
  generalize sqnDis x.wbase q = d at hin hahead
  refine ⟨d, hin, rfl, ?_⟩
  rw [← hahead, h.wbase, seqnumAdd_seqnumAdd]
  norm_cast

private theorem slid_gbn {x : Sender} {o d : Nat} {q : UInt32} (hmode : cfg.mode = .gbn)
    (h : Aligned cfg start x o) (hd : d < o) (hdis : sqnDis x.wbase q = d) :
    (slid cfg x q).shift = x.shift + (d + 1) ∧
      Aligned cfg start (slid cfg x q) (o - (d + 1)) := by
  have hack : acknowledge cfg x q = (d + 1, x.window) := by
    unfold acknowledge
    rw [hmode, hdis]
  have hsent := h.sent_le
  have hle := h.outstanding_le
  refine ⟨by simp [slid, hack], ?_⟩
  exact {
    wbase := by
      simp only [slid, hack, h.wbase, seqnumAdd_seqnumAdd]
      norm_cast
    sqn := by
      simp only [slid, hack, h.sqn]
      congr 2
      omega
    outstanding_le := by omega
    sent_le := by simp only [slid, hack]; omega
    length := by simp only [slid, hack, h.length]
    slots := by
      intro i hi
      simp [slid, hack, h.gbn hmode, List.getElem?_replicate] at hi
    settled := by simpa only [slid, hack] using h.settled
    gbn := by simpa only [slid, hack] using h.gbn }

private theorem slid_sr {x : Sender} {o d : Nat} {q : UInt32} (hmode : cfg.mode = .sr)
    (h : Aligned cfg start x o) (hd : d < o) (hdis : sqnDis x.wbase q = d) :
    (slid cfg x q).shift = x.shift + leadingOnes (x.window.set d true) ∧
      leadingOnes (x.window.set d true) ≤ o ∧
      Aligned cfg start (slid cfg x q) (o - leadingOnes (x.window.set d true)) ∧
      marked (slid cfg x q).shift (slid cfg x q).window =
        insert (x.shift + d) (marked x.shift x.window) := by
  have hack : acknowledge cfg x q = updateWindow x.window cfg.wsize d := by
    unfold acknowledge
    rw [hmode, hdis]
  have hle := h.outstanding_le
  have hsent := h.sent_le
  obtain ⟨hmarked, hsettled⟩ :=
    marked_updateWindow x.shift h.length (show d < cfg.wsize by omega)
  have hlength := updateWindow_length h.length d
  rw [updateWindow_eq h.length d] at hack hmarked hsettled hlength
  -- only outstanding packets are marked, so the window slides over these only
  have hslots : ∀ i, (x.window.set d true)[i]? = some true → i < o := by
    intro i hi
    rw [List.getElem?_set] at hi
    by_cases heq : d = i
    · omega
    · exact h.slots i (by simpa [heq] using hi)
  have hones : leadingOnes (x.window.set d true) ≤ o := by
    by_contra hlt
    exact Nat.lt_irrefl o (hslots o (getElem?_of_lt_leadingOnes (by omega)))
  refine ⟨by simp only [slid, hack], hones, ?_, by simpa only [slid, hack] using hmarked⟩
  exact {
    wbase := by
      simp only [slid, hack, h.wbase, seqnumAdd_seqnumAdd]
      norm_cast
    sqn := by
      simp only [slid, hack, h.sqn]
      congr 2
      omega
    outstanding_le := by omega
    sent_le := by simp only [slid, hack]; omega
    length := by simpa only [slid, hack] using hlength
    slots := by
      intro i hi
      simp only [slid, hack] at hi
      have := hslots _ (getElem?_slide_eq_true.mp hi)
      omega
    settled := by simpa only [slid, hack] using hsettled
    gbn := fun hgbn => by rw [hmode] at hgbn; cases hgbn }

/-- In go-back-N nothing above the base is marked. -/
theorem Aligned.marked_gbn {x : Sender} {o : Nat} (h : Aligned cfg start x o)
    (hmode : cfg.mode = .gbn) : marked x.shift x.window = Set.Iio x.shift := by
  rw [h.gbn hmode, marked_replicate_false]

/-- An acknowledgement of outstanding packet `shift + d` slides the window and
acknowledges exactly what it stands for. -/
theorem slid_aligned {x : Sender} {o d : Nat} {q : UInt32} (h : Aligned cfg start x o)
    (hd : d < o) (hdis : sqnDis x.wbase q = d) :
    ∃ mov, mov ≤ o ∧ (slid cfg x q).shift = x.shift + mov ∧
      (d = 0 ∨ cfg.mode = .gbn → 0 < mov) ∧
      Aligned cfg start (slid cfg x q) (o - mov) ∧
      marked (slid cfg x q).shift (slid cfg x q).window =
        marked x.shift x.window ∪ covers cfg.mode (x.shift + d) := by
  have hle := h.outstanding_le
  cases hmode : cfg.mode with
  | gbn =>
    obtain ⟨hshift, haligned⟩ := slid_gbn hmode h hd hdis
    refine ⟨d + 1, by omega, hshift, fun _ => by omega, haligned, ?_⟩
    rw [haligned.marked_gbn hmode, hshift, h.marked_gbn hmode]
    ext k
    simp only [covers, Set.mem_Iio, Set.mem_union]
    omega
  | sr =>
    obtain ⟨hshift, hones, haligned, hmarked⟩ := slid_sr hmode h hd hdis
    refine ⟨_, hones, hshift, ?_, haligned, ?_⟩
    · rintro (rfl | hgbn)
      · exact leadingOnes_set_pos (by rw [h.length]; omega)
      · cases hgbn
    · rw [hmarked, covers, Set.union_singleton]

/-! ## One receive in the loop -/

/-- The sender moved on from `x` with `o` packets outstanding to `x'` with `o'`,
and `sent` holds data packets only, among them all that became outstanding. -/
structure Advance (cfg : SenderConfig) (start : UInt32) (x : Sender) (o : Nat) (x' : Sender)
    (sent : List Packet) (o' : Nat) : Prop where
  aligned : Aligned cfg start x' o'
  stopped : Stopped cfg x' o'
  shift_le : x.shift ≤ x'.shift
  sent_le : x.shift + o ≤ x'.shift + o'
  data : ∀ p ∈ sent, ∃ k, k < x'.shift + o' ∧ p = cfg.dataPacket (seqnumAdd start k) k
  fresh : ∀ k, x.shift + o ≤ k → k < x'.shift + o' →
    cfg.dataPacket (seqnumAdd start k) k ∈ sent

theorem transferLoop_advance {x : Sender} {o : Nat} (h : Aligned cfg start x o) :
    ∃ o', Advance cfg start x o (transferLoop cfg x).1 (transferLoop cfg x).2 o' ∧
      (transferLoop cfg x).1.shift = x.shift ∧ (transferLoop cfg x).1.window = x.window := by
  obtain ⟨o', haligned, hstopped, hshift, hwindow, hle, hmem⟩ := transferLoop_aligned h
  refine ⟨o', ?_, hshift, hwindow⟩
  exact {
    aligned := haligned
    stopped := hstopped
    shift_le := by omega
    sent_le := by omega
    data := fun p hp => by
      obtain ⟨k, _, hk, rfl⟩ := (hmem p).mp hp
      exact ⟨k, by omega, rfl⟩
    fresh := fun k hk hlt => (hmem _).mpr ⟨k, hk, by omega, rfl⟩ }

/-- An intact packet in the loop is ignored, or it is an acknowledgement and
slides the window. -/
theorem transferRecv_ok (cfg : SenderConfig) (x : Sender) (p : Packet) :
    transferRecv cfg x (.ok p) = transferLoop cfg x ∨
      p.flags = rtpAck ∧ seqnumIsIn (ackNumber cfg.mode p) x.wbase x.sqn = true ∧
        transferRecv cfg x (.ok p) = transferLoop cfg (slid cfg x (ackNumber cfg.mode p)) := by
  simp only [transferRecv]
  split
  · exact Or.inl rfl
  · rename_i hflags
    split
    · exact Or.inl rfl
    · rename_i hin
      refine Or.inr ⟨by simpa using hflags, ?_, rfl⟩
      unfold ackNumber
      revert hin
      cases seqnumIsIn (seqnumAdd p.seqNum (-((cfg.mode.toNat ^^^ 1 : Nat) : Int))) x.wbase x.sqn <;>
        simp

/-- The ACK that acknowledges packet `k`. -/
def ackFor (mode : Mode) (start : UInt32) (k : Nat) : Packet :=
  controlPacket (seqnumAdd start (k + (mode.toNat ^^^ 1) : Nat)) rtpAck

theorem ackNumber_ackFor (mode : Mode) (start : UInt32) (k : Nat) :
    ackNumber mode (ackFor mode start k) = seqnumAdd start k := by
  cases mode <;> simp [ackNumber, ackFor, Mode.toNat]

/-- The ACK of an outstanding packet passes the test of the code. -/
theorem transferRecv_ackFor {x : Sender} {o d : Nat} (h : Aligned cfg start x o) (hd : d < o) :
    sqnDis x.wbase (seqnumAdd start (x.shift + d : Nat)) = d ∧
      transferRecv cfg x (.ok (ackFor cfg.mode start (x.shift + d))) =
        transferLoop cfg (slid cfg x (seqnumAdd start (x.shift + d : Nat))) := by
  have ho := h.outstanding_lt
  refine ⟨?_, ?_⟩
  · rw [h.wbase, sqnDis_index _ _ (by omega) (by omega)]
    omega
  · have hin : seqnumIsIn (seqnumAdd start (x.shift + d : Nat)) x.wbase x.sqn = true := by
      rw [h.wbase, h.sqn, seqnumIsIn_index (by omega) ho (by omega) (by omega)]
      omega
    have hnum := ackNumber_ackFor cfg.mode start (x.shift + d)
    unfold ackNumber at hnum
    simp only [transferRecv, hnum, hin]
    simp [ackFor, slid]

/-- The acknowledgement of an outstanding packet never moves the window past the
packets that were outstanding. -/
theorem transferRecv_shift {x : Sender} {o d : Nat} (h : Aligned cfg start x o) (hd : d < o) :
    ∃ mov ≤ o,
      (transferRecv cfg x (.ok (ackFor cfg.mode start (x.shift + d)))).1.shift = x.shift + mov ∧
        (d = 0 ∨ cfg.mode = .gbn → 0 < mov) := by
  obtain ⟨hdis, heq⟩ := transferRecv_ackFor h hd
  obtain ⟨mov, hmov, hshift, hpos, haligned, _⟩ := slid_aligned h hd hdis
  obtain ⟨_, _, hshift', _⟩ := transferLoop_advance haligned
  exact ⟨mov, hmov, by rw [heq, hshift', hshift], hpos⟩

/-- The acknowledgement of the first outstanding packet, or of any in
go-back-N, moves the window. -/
theorem transferRecv_moves {x : Sender} {o d : Nat} (h : Aligned cfg start x o) (hd : d < o)
    (hfirst : d = 0 ∨ cfg.mode = .gbn) :
    x.shift < (transferRecv cfg x (.ok (ackFor cfg.mode start (x.shift + d)))).1.shift := by
  obtain ⟨mov, _, hshift, hpos⟩ := transferRecv_shift h hd
  have hmov := hpos hfirst
  omega

/-- What one receive can do inside the loop: the window stays, or an
acknowledgement of an outstanding packet `k` slides it. -/
theorem transferRecv_cases {x : Sender} {o : Nat} (h : Aligned cfg start x o) (ho : 0 < o)
    (r : Recv) :
    ∃ o', Advance cfg start x o (transferRecv cfg x r).1 (transferRecv cfg x r).2 o' ∧
      (marked (transferRecv cfg x r).1.shift (transferRecv cfg x r).1.window =
          marked x.shift x.window ∨
        ∃ p k, r = .ok p ∧ p.flags = rtpAck ∧ k < x.shift + o ∧
          ackNumber cfg.mode p = seqnumAdd start k ∧
          marked (transferRecv cfg x r).1.shift (transferRecv cfg x r).1.window =
            marked x.shift x.window ∪ covers cfg.mode k) := by
  have hstay := transferLoop_advance h
  cases r with
  | timeout =>
    obtain ⟨o', hadv, hshift, hwindow⟩ := hstay
    refine ⟨o', { hadv with data := ?_, fresh := ?_ }, Or.inl ?_⟩
    · intro p hp
      rcases List.mem_append.mp hp with hp | hp
      · obtain ⟨j, hj, rfl⟩ := mem_resend hp
        rw [h.sqnDis_eq] at hj
        refine ⟨x.shift + j, ?_, ?_⟩
        · have := hadv.sent_le
          simp only [transferRecv] at *
          omega
        · rw [h.wbase, seqnumAdd_seqnumAdd]
          norm_cast
      · exact hadv.data p hp
    · exact fun k hk hlt => List.mem_append_right _ (hadv.fresh k hk hlt)
    · simp only [transferRecv]
      rw [hshift, hwindow]
  | rejected q =>
    obtain ⟨o', hadv, hshift, hwindow⟩ := hstay
    exact ⟨o', hadv, Or.inl (by simp only [transferRecv]; rw [hshift, hwindow])⟩
  | ok p =>
    rcases transferRecv_ok cfg x p with heq | ⟨hflags, hin, heq⟩
    · obtain ⟨o', hadv, hshift, hwindow⟩ := hstay
      rw [heq]
      exact ⟨o', hadv, Or.inl (by rw [hshift, hwindow])⟩
    · obtain ⟨d, hd, hdis, hq⟩ := exists_index_of_isIn h ho (isSeqnum_ackNumber _ _) hin
      obtain ⟨mov, hmov, hshift, _, haligned, hmarked⟩ := slid_aligned h hd hdis
      obtain ⟨o', hadv, hshift', hwindow'⟩ := transferLoop_advance haligned
      have hsum : (slid cfg x (ackNumber cfg.mode p)).shift + (o - mov) = x.shift + o := by omega
      rw [heq]
      refine ⟨o', { hadv with shift_le := ?_, sent_le := ?_, fresh := ?_ },
        Or.inr ⟨p, x.shift + d, rfl, hflags, by omega, hq, ?_⟩⟩
      · have := hadv.shift_le
        omega
      · rw [← hsum]
        exact hadv.sent_le
      · intro k hk
        exact hadv.fresh k (by omega)
      · rw [hshift', hwindow', hmarked]

/-- Entry of `transfer_data`: nothing is outstanding yet. -/
theorem aligned_start (cfg : SenderConfig) (x : Sender) (hsqn : x.sqn = start) (hstart : IsSeqnum start) :
    Aligned cfg start
      { x with wbase := x.sqn, shift := 0, window := List.replicate cfg.wsize false } 0 where
  wbase := by
    have h0 := seqnumAdd_zero hstart
    simp only [hsqn]
    exact_mod_cast h0.symm
  sqn := by
    have h0 := seqnumAdd_zero hstart
    simp only [hsqn]
    exact_mod_cast h0.symm
  outstanding_le := by simp
  sent_le := by simp
  length := by simp
  slots := by simp [List.getElem?_replicate]
  settled := by simp [Settled, List.getElem?_replicate]
  gbn _ := rfl

end Sender

/-! ## The whole program -/

/-- `transfer_data` of the sender has been entered. -/
def SenderPc.enteredTransfer : SenderPc → Prop
  | .synSent | .ackSent | .established => False
  | _ => True

namespace Sender

/-- The number of data packets sent so far, not counting repetitions. -/
def sentCount (x : Sender) : Nat :=
  match x.pc with
  | .synSent | .ackSent | .established => 0
  | _ => x.shift + sqnDis x.wbase x.sqn

/-- The packets that the sender takes as acknowledged. -/
def acked (x : Sender) : Set Nat :=
  match x.pc with
  | .synSent | .ackSent | .established => ∅
  | _ => marked x.shift x.window

/-- The packets sent and not yet acknowledged in order. -/
def outstanding (x : Sender) : Nat := x.sentCount - x.shift

theorem sentCount_of_entered {x : Sender} (h : x.pc.enteredTransfer) :
    x.sentCount = x.shift + sqnDis x.wbase x.sqn := by
  unfold sentCount
  cases hpc : x.pc <;> simp_all [SenderPc.enteredTransfer]

theorem acked_of_entered {x : Sender} (h : x.pc.enteredTransfer) :
    x.acked = marked x.shift x.window := by
  unfold acked
  cases hpc : x.pc <;> simp_all [SenderPc.enteredTransfer]

theorem sentCount_of_not_entered {x : Sender} (h : ¬ x.pc.enteredTransfer) :
    x.sentCount = 0 := by
  unfold sentCount
  cases hpc : x.pc <;> simp_all [SenderPc.enteredTransfer]

theorem acked_of_not_entered {x : Sender} (h : ¬ x.pc.enteredTransfer) : x.acked = ∅ := by
  unfold acked
  cases hpc : x.pc <;> simp_all [SenderPc.enteredTransfer]

/-- The window invariant at every stop of the program. -/
structure WF (cfg : SenderConfig) (start : UInt32) (x : Sender) : Prop where
  idle : ¬ x.pc.enteredTransfer → x.shift = 0 ∧ x.window = []
  aligned : x.pc.enteredTransfer → Aligned cfg start x (sqnDis x.wbase x.sqn)
  busy : x.pc = .transfer → 0 < sqnDis x.wbase x.sqn
  finished : x.pc.leftTransfer → sqnDis x.wbase x.sqn = 0 ∧ x.shift = cfg.npacket

variable {cfg : SenderConfig} {start : UInt32}

theorem WF.of_not_entered {x : Sender} (h : ¬ x.pc.enteredTransfer) (hshift : x.shift = 0)
    (hwindow : x.window = []) : WF cfg start x where
  idle _ := ⟨hshift, hwindow⟩
  aligned h' := absurd h' h
  busy hpc := absurd (by simp [hpc, SenderPc.enteredTransfer]) h
  finished hleft := by
    cases hpc : x.pc <;> simp_all [SenderPc.enteredTransfer, SenderPc.leftTransfer]

/-- The invariant reads nothing but the phase and the window variables. -/
theorem WF.congr {x x' : Sender} (h : WF cfg start x) (hpc : x.pc.leftTransfer)
    (hpc' : x'.pc.leftTransfer) (hsqn : x'.sqn = x.sqn) (hwbase : x'.wbase = x.wbase)
    (hshift : x'.shift = x.shift) (hwindow : x'.window = x.window) : WF cfg start x' := by
  have hentered : x.pc.enteredTransfer := by
    cases hx : x.pc <;> simp_all [SenderPc.enteredTransfer, SenderPc.leftTransfer]
  have hentered' : x'.pc.enteredTransfer := by
    cases hx : x'.pc <;> simp_all [SenderPc.enteredTransfer, SenderPc.leftTransfer]
  have halign := h.aligned hentered
  refine ⟨fun hx => absurd hentered' hx, fun _ => ?_, fun hx => ?_, fun _ => ?_⟩
  · rw [hwbase, hsqn]
    exact halign.congr hsqn hwbase hshift hwindow
  · rw [hx] at hpc'
    exact hpc'.elim
  · rw [hwbase, hsqn, hshift]
    exact h.finished hpc

/-- An advance of the window arrives at a state that keeps the invariant. -/
theorem Advance.wf {x x' : Sender} {o o' : Nat} {sent : List Packet}
    (h : Advance cfg start x o x' sent o') :
    WF cfg start x' ∧ x'.pc.enteredTransfer ∧ x'.sentCount = x'.shift + o' := by
  have hdis := h.aligned.sqnDis_eq
  have hentered : x'.pc.enteredTransfer := by
    rcases h.stopped with ⟨hpc, _⟩ | ⟨hpc, _⟩ <;> simp [hpc, SenderPc.enteredTransfer]
  refine ⟨⟨fun hx => absurd hentered hx, fun _ => hdis.symm ▸ h.aligned, fun hpc => ?_,
    fun hleft => ?_⟩, hentered, ?_⟩
  · rcases h.stopped with ⟨_, ho⟩ | ⟨hpc', _⟩
    · omega
    · rw [hpc] at hpc'
      cases hpc'
  · rcases h.stopped with ⟨hpc, _⟩ | ⟨_, ho, hshift⟩
    · rw [hpc] at hleft
      exact hleft.elim
    · exact ⟨by omega, hshift⟩
  · rw [sentCount_of_entered hentered, hdis]

/-- What a step does to the data that is sent and to what counts as
acknowledged. -/
structure DataStep (cfg : SenderConfig) (start : UInt32) (x : Sender) (input : Input)
    (x' : Sender) (sent : List Packet) : Prop where
  wf : WF cfg start x'
  sentCount_le : x.sentCount ≤ x'.sentCount
  data : ∀ p ∈ sent, p.flags = 0 →
    ∃ k, k < x'.sentCount ∧ p = cfg.dataPacket (seqnumAdd start k) k
  acked : x'.acked = x.acked ∨
    ∃ p k, input = .recv (.ok p) ∧ p.flags = rtpAck ∧ k < x.sentCount ∧
      ackNumber cfg.mode p = seqnumAdd start k ∧ x'.acked = x.acked ∪ covers cfg.mode k

/-- A step outside `transfer_data`: nothing is sent but control packets. -/
private theorem dataStep_of_not_entered {x x' : Sender} {input : Input} {sent : List Packet}
    (h : WF cfg start x) (hpc : ¬ x.pc.enteredTransfer) (hpc' : ¬ x'.pc.enteredTransfer)
    (hshift : x'.shift = x.shift) (hwindow : x'.window = x.window)
    (hsent : ∀ p ∈ sent, p.flags ≠ 0) : DataStep cfg start x input x' sent where
  wf := .of_not_entered hpc' (hshift.trans (h.idle hpc).1) (hwindow.trans (h.idle hpc).2)
  sentCount_le := by rw [sentCount_of_not_entered hpc]; exact Nat.zero_le _
  data p hp hflags := absurd hflags (hsent p hp)
  acked := Or.inl (by rw [acked_of_not_entered hpc, acked_of_not_entered hpc'])

private theorem dataStep_of_left {x x' : Sender} {input : Input} {sent : List Packet}
    (h : WF cfg start x) (hpc : x.pc.leftTransfer)
    (hpc' : x'.pc.leftTransfer) (hsqn : x'.sqn = x.sqn) (hwbase : x'.wbase = x.wbase)
    (hshift : x'.shift = x.shift) (hwindow : x'.window = x.window)
    (hsent : ∀ p ∈ sent, p.flags ≠ 0) : DataStep cfg start x input x' sent := by
  have hentered : ∀ {pc : SenderPc}, pc.leftTransfer → pc.enteredTransfer := by
    intro pc hleft
    cases pc <;> simp_all [SenderPc.enteredTransfer, SenderPc.leftTransfer]
  have hacked : x'.acked = x.acked := by
    rw [acked_of_entered (hentered hpc), acked_of_entered (hentered hpc'), hshift, hwindow]
  exact {
    wf := h.congr hpc hpc' hsqn hwbase hshift hwindow
    sentCount_le := by
      rw [sentCount_of_entered (hentered hpc), sentCount_of_entered (hentered hpc'), hwbase,
        hshift, hsqn]
    data := fun p hp hflags => absurd hflags (hsent p hp)
    acked := Or.inl hacked }

/-- Every step of the sender keeps the window invariant, sends only data
packets under their own index, and acknowledges only what an ACK stands for. -/
theorem step_data {x x' : Sender} {input : Input} {sent : List Packet}
    (hstep : step cfg x input = some (x', sent)) (hstart : IsSeqnum start)
    (hsqn : x.pc = .established → x.sqn = start) (h : WF cfg start x) :
    DataStep cfg start x input x' sent := by
  obtain ⟨_, hmove⟩ := move_of_step cfg hstep
  cases hmove with
  | exit =>
    exact {
      wf := ⟨h.idle, fun hx => { h.aligned hx with }, h.busy, h.finished⟩
      sentCount_le := Nat.le_refl _
      data := nofun
      acked := Or.inl rfl }
  | synRetry hpc =>
    exact dataStep_of_not_entered h (by simp [hpc, SenderPc.enteredTransfer])
      (by simp [hpc, SenderPc.enteredTransfer]) rfl rfl (by simp [rtpSyn])
  | synAccept hpc =>
    exact dataStep_of_not_entered h (by simp [hpc, SenderPc.enteredTransfer])
      (by simp [SenderPc.enteredTransfer]) rfl rfl (by simp [rtpAck])
  | confirm hpc hsent =>
    refine dataStep_of_not_entered h (by simp [hpc, SenderPc.enteredTransfer])
      (by simp [SenderPc.enteredTransfer]) rfl rfl (fun p hp => ?_)
    rw [hsent p hp]
    simp [rtpAck]
  | enter hpc =>
    obtain ⟨o', hadv, hshift, hwindow⟩ :=
      transferLoop_advance (aligned_start cfg x (hsqn hpc) hstart)
    obtain ⟨hwf, hentered, hcount⟩ := hadv.wf
    have hbefore : ¬ x.pc.enteredTransfer := by simp [hpc, SenderPc.enteredTransfer]
    exact {
      wf := hwf
      sentCount_le := by rw [sentCount_of_not_entered hbefore]; exact Nat.zero_le _
      data := fun p hp _ => by
        obtain ⟨k, hk, rfl⟩ := hadv.data p hp
        exact ⟨k, by unfold transferStart; omega, rfl⟩
      acked := Or.inl (by
        rw [acked_of_not_entered hbefore, transferStart, acked_of_entered hentered, hshift,
          hwindow, marked_replicate_false]
        exact Set.Iio_bot) }
  | @transfer r hpc =>
    have hentered : x.pc.enteredTransfer := by simp [hpc, SenderPc.enteredTransfer]
    obtain ⟨o', hadv, hacked⟩ := transferRecv_cases (h.aligned hentered) (h.busy hpc) r
    obtain ⟨hwf, hentered', hcount⟩ := hadv.wf
    have hcount0 := sentCount_of_entered hentered
    exact {
      wf := hwf
      sentCount_le := by rw [hcount, hcount0]; exact hadv.sent_le
      data := fun p hp _ => by
        obtain ⟨k, hk, rfl⟩ := hadv.data p hp
        exact ⟨k, by omega, rfl⟩
      acked := by
        rw [acked_of_entered hentered, acked_of_entered hentered']
        rcases hacked with hsame | ⟨p, k, rfl, hflags, hk, hnum, hset⟩
        · exact Or.inl hsame
        · exact Or.inr ⟨p, k, rfl, hflags, by omega, hnum, hset⟩ }
  | fin hpc =>
    exact dataStep_of_left h (by simp [hpc, SenderPc.leftTransfer])
      (by simp [SenderPc.leftTransfer]) rfl rfl rfl rfl (by simp [rtpFin])
  | finRetry hpc =>
    exact dataStep_of_left h (by simp [hpc, SenderPc.leftTransfer])
      (by simp [hpc, SenderPc.leftTransfer]) rfl rfl rfl rfl (by simp [rtpFin])
  | finAccept hpc =>
    exact dataStep_of_left h (by simp [hpc, SenderPc.leftTransfer])
      (by simp [SenderPc.leftTransfer]) rfl rfl rfl rfl nofun

end Sender

end NetLabs.Rtp
