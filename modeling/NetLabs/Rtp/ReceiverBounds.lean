import NetLabs.Rtp.Placement

/-!
# The bounds of the receiver's window and buffer

The receiver tests a number that arrives unmasked, while it computes the window
slot on the ring of size `2 ^ 31`, and the offset of the copy as an `int`.
`receiver_slot_in_range_iff` says for which packets the slot lies in the window and
the offset is an `int`.

Nothing bounds the place of a packet by the size of the file buffer.
`receiver_copies_inside_iff` says which packets keep the copies inside.

`StoredWithin` is the invariant behind both: as long as all copies end within some
number of bytes, the number of a packet, counted from the start, gives its place.
-/

namespace NetLabs.Rtp

open NetLabs.Lib

namespace Receiver

variable {cfg : ReceiverConfig} {start : UInt32} {size : Nat} {x : Receiver} {p : Packet}

/-! ## What has been stored so far -/

/-- Everything stored so far begins within the first `size` bytes, and the numbers
count from `start`. -/
structure StoredWithin (cfg : ReceiverConfig) (start : UInt32) (size : Nat) (x : Receiver) :
    Prop where
  wbase : cfg.mode = .sr → x.wbase = seqnumAdd start x.shift
  sqn : cfg.mode = .gbn → x.sqn = seqnumAdd start x.shift
  shift_le : x.shift ≤ size / payloadMax + 1
  slots : cfg.mode = .sr → ∀ i : Nat, x.window[i]? = some true → x.shift + i ≤ size / payloadMax
  length : cfg.mode = .sr → x.window.length = cfg.wsize

/-- The number of a packet gives its place, up to full turns of the ring. -/
theorem StoredWithin.sqnDis_eq (h : StoredWithin cfg start size x) {k : Nat}
    (hplace : place cfg x p = some k) :
    sqnDis start p.seqNum = k % 2 ^ 31 ∧ x.shift ≤ k ∧ k < x.shift + 2 ^ 31 := by
  cases hmode : cfg.mode with
  | sr =>
    obtain ⟨_, rfl⟩ := recvData_sr hmode hplace
    have hbase : x.wbase.toNat = (start.toNat + x.shift) % 2 ^ 31 := by
      rw [h.wbase hmode, seqnumAdd_toNat]
    rw [NetLabs.Rtp.sqnDis_eq, NetLabs.Rtp.sqnDis_eq, ringDist, ringDist, hbase]
    omega
  | gbn =>
    obtain ⟨_, rfl, hseq⟩ := recvData_gbn hmode hplace
    have hnumber : p.seqNum.toNat = (start.toNat + x.shift) % 2 ^ 31 := by
      rw [hseq, h.sqn hmode, seqnumAdd_toNat]
    rw [NetLabs.Rtp.sqnDis_eq, ringDist, hnumber]
    omega

/-- A copy that ends within the first `size` bytes keeps the invariant. -/
theorem StoredWithin.recvData (h : StoredWithin cfg start size x)
    (hinside : ∀ k, place cfg x p = some k → k * payloadMax + p.length ≤ size) :
    StoredWithin cfg start size (recvData cfg x p).1 := by
  cases hplace : place cfg x p with
  | none =>
    rw [recvData_of_not_place hplace]
    exact h
  | some k =>
    have hroom := hinside k hplace
    have hfloor : k ≤ size / payloadMax := by
      rw [Nat.le_div_iff_mul_le (by decide)]
      omega
    cases hmode : cfg.mode with
    | sr =>
      obtain ⟨heq, hk⟩ := recvData_sr hmode hplace
      have hlength := h.length hmode
      have hslots : ∀ i : Nat, (x.window.set (sqnDis x.wbase p.seqNum) true)[i]? = some true →
          x.shift + i ≤ size / payloadMax := by
        intro i hi
        rw [List.getElem?_set] at hi
        by_cases hsame : sqnDis x.wbase p.seqNum = i
        · omega
        · exact h.slots hmode i (by simpa [hsame] using hi)
      have hupdate := updateWindow_eq hlength (sqnDis x.wbase p.seqNum)
      have hslot : sqnDis x.wbase p.seqNum + x.shift - x.shift = sqnDis x.wbase p.seqNum := by
        omega
      rw [heq]
      simp only [acceptSr, hslot, hupdate]
      refine ⟨fun _ => ?_, fun hgbn => ?_, ?_, fun _ i hi => ?_, fun _ => ?_⟩
      · show seqnumAdd x.wbase _ = seqnumAdd start _
        rw [h.wbase hmode, seqnumAdd_seqnumAdd]
        norm_cast
      · rw [hmode] at hgbn
        cases hgbn
      · show x.shift + leadingOnes _ ≤ size / payloadMax + 1
        have hshift := h.shift_le
        by_cases hzero : leadingOnes (x.window.set (sqnDis x.wbase p.seqNum) true) = 0
        · omega
        · have hlast := hslots _ (getElem?_of_lt_leadingOnes (Nat.sub_one_lt hzero))
          omega
      · have hbefore := hslots _ (getElem?_slide_eq_true.mp hi)
        show x.shift + leadingOnes _ + i ≤ size / payloadMax
        omega
      · show (slide _ _).length = cfg.wsize
        rw [slide_length, List.length_set, hlength]
    | gbn =>
      obtain ⟨heq, hk, _⟩ := recvData_gbn hmode hplace
      rw [heq]
      refine ⟨fun hsr => ?_, fun _ => ?_, ?_, fun hsr => ?_, fun hsr => ?_⟩
      · rw [hmode] at hsr
        cases hsr
      · show seqnumAdd x.sqn 1 = seqnumAdd start (x.shift + 1 : Nat)
        rw [h.sqn hmode, seqnumAdd_seqnumAdd]
        norm_cast
      · show x.shift + 1 ≤ size / payloadMax + 1
        omega
      · rw [hmode] at hsr
        cases hsr
      · rw [hmode] at hsr
        cases hsr

theorem storedWithin_start (cfg : ReceiverConfig) (size : Nat) {x : Receiver}
    (hstart : IsSeqnum x.sqn) : StoredWithin cfg x.sqn size (transferStart cfg x) where
  wbase _ := (seqnumAdd_zero hstart).symm
  sqn _ := (seqnumAdd_zero hstart).symm
  shift_le := Nat.zero_le _
  slots _ i hi := by simp [transferStart, List.getElem?_replicate] at hi
  length _ := by simp [transferStart]

/-! ## The window slot -/

/-- An accepted packet gets a slot of the window, a place in the window, and
`update_window` touches no slot outside.  The bytes of the copy are counted by
`int`s: one that overflows on the way puts them outside. -/
structure SlotInRange (cfg : ReceiverConfig) (x : Receiver) (p : Packet) : Prop where
  slot_lt : (place cfg x p).isSome → sqnDis x.wbase p.seqNum < cfg.wsize
  place_mem : ∀ k, place cfg x p = some k → x.shift ≤ k ∧ k < x.shift + cfg.wsize
  touched : (place cfg x p).isSome →
    ∀ i ∈ updateWindowSlots x.window cfg.wsize (sqnDis x.wbase p.seqNum), i < cfg.wsize
  offset : ∀ k, place cfg x p = some k → k * payloadMax + p.length < 2 ^ 31

/-- The number lies on the ring, or the window does not reach the end of the
ring, or the number without its top bit lies in the window. -/
def Unambiguous (cfg : ReceiverConfig) (x : Receiver) (p : Packet) : Prop :=
  IsSeqnum p.seqNum ∨ x.wbase.toNat + cfg.wsize < 2 ^ 31 ∨
    seqnumIsIn (seqnumAdd p.seqNum 0) x.wbase (seqnumAdd x.wbase cfg.wsize) = true

/-- The number of an accepted packet, counted from the number the transfer started
with, stands for fewer than `2 ^ 31` bytes of the file. -/
def Countable (cfg : ReceiverConfig) (start : UInt32) (x : Receiver) (p : Packet) : Prop :=
  (place cfg x p).isSome → sqnDis start p.seqNum * payloadMax + p.length < 2 ^ 31

/-- The distance does not see the top bit. -/
theorem sqnDis_mask (l r : UInt32) : sqnDis l (seqnumAdd r 0) = sqnDis l r := by
  have hmask : (seqnumAdd r 0).toNat = (r.toNat + 0) % 2 ^ 31 := seqnumAdd_toNat r 0
  rw [sqnDis_eq, sqnDis_eq, hmask, ringDist, ringDist]
  omega

theorem place_sr_isSome_iff (hmode : cfg.mode = .sr) :
    (place cfg x p).isSome = true ↔
      ¬ seqnumIsIn p.seqNum (seqnumAdd x.wbase (-(cfg.wsize : Int))) x.wbase = true ∧
        seqnumIsIn p.seqNum x.wbase (seqnumAdd x.wbase cfg.wsize) = true := by
  simp only [place, hmode]
  by_cases hbehind : seqnumIsIn p.seqNum (seqnumAdd x.wbase (-(cfg.wsize : Int))) x.wbase = true
  · rw [if_pos hbehind]
    simp [hbehind]
  · rw [if_neg hbehind]
    by_cases hin : seqnumIsIn p.seqNum x.wbase (seqnumAdd x.wbase cfg.wsize) = true
    · rw [if_pos hin]
      exact ⟨fun _ => ⟨hbehind, hin⟩, fun _ => rfl⟩
    · rw [if_neg hin]
      simp [hin]

/-- A number above the ring is accepted by every window that reaches the end of
the ring: it lies behind the base as a plain number. -/
theorem accepted_above_ring (hmode : cfg.mode = .sr) (hbase : IsSeqnum x.wbase)
    (hw : cfg.wsize ≤ 2 ^ 30) (habove : 2 ^ 31 ≤ p.seqNum.toNat)
    (hend : 2 ^ 31 ≤ x.wbase.toNat + cfg.wsize) : (place cfg x p).isSome = true := by
  have hpos := cfg.wsize_pos
  have hright := seqnumAdd_toNat x.wbase cfg.wsize
  have hleft := seqnumAdd_toNat_int x.wbase (-(cfg.wsize : Int))
  unfold IsSeqnum at hbase
  rw [place_sr_isSome_iff hmode]
  unfold seqnumIsIn
  simp only [UInt32.lt_iff_toNat_lt, ge_iff_le, UInt32.le_iff_toNat_le]
  refine ⟨?_, ?_⟩
  · rw [if_pos (by omega), Bool.and_eq_true, decide_eq_true_eq, decide_eq_true_eq]
    omega
  · rw [if_neg (by omega), Bool.or_eq_true, decide_eq_true_eq, decide_eq_true_eq]
    omega

/-- The masked number lies in the window exactly when the slot does. -/
theorem mask_isIn_iff (hbase : IsSeqnum x.wbase) (hw : cfg.wsize ≤ 2 ^ 30) :
    seqnumIsIn (seqnumAdd p.seqNum 0) x.wbase (seqnumAdd x.wbase cfg.wsize) = true ↔
      sqnDis x.wbase p.seqNum < cfg.wsize := by
  rw [seqnumIsIn_iff (isSeqnum_seqnumAdd _ _) hbase cfg.wsize_pos (by omega), sqnDis_mask]

/-- The slot of an accepted packet lies in the window exactly when its number is
unambiguous. -/
theorem slot_lt_iff (hmode : cfg.mode = .sr) (hbase : IsSeqnum x.wbase) (hw : cfg.wsize ≤ 2 ^ 30) :
    ((place cfg x p).isSome = true → sqnDis x.wbase p.seqNum < cfg.wsize) ↔
      Unambiguous cfg x p := by
  constructor
  · intro hslot
    by_cases hring : p.seqNum.toNat < 2 ^ 31
    · exact Or.inl hring
    · by_cases hend : x.wbase.toNat + cfg.wsize < 2 ^ 31
      · exact Or.inr (Or.inl hend)
      · have haccepted := accepted_above_ring (p := p) hmode hbase hw (by omega) (by omega)
        exact Or.inr (Or.inr ((mask_isIn_iff hbase hw).mpr (hslot haccepted)))
  · intro hunambiguous haccepted
    obtain ⟨_, hin⟩ := (place_sr_isSome_iff hmode).mp haccepted
    have honRing : IsSeqnum p.seqNum → sqnDis x.wbase p.seqNum < cfg.wsize := fun hring =>
      (seqnumIsIn_iff hring hbase cfg.wsize_pos (by omega)).mp hin
    rcases hunambiguous with hring | hend | hmask
    · exact honRing hring
    · apply honRing
      have hpos := cfg.wsize_pos
      have hright := seqnumAdd_toNat x.wbase cfg.wsize
      unfold seqnumIsIn at hin
      simp only [UInt32.lt_iff_toNat_lt, ge_iff_le, UInt32.le_iff_toNat_le] at hin
      rw [if_pos (by omega), Bool.and_eq_true, decide_eq_true_eq, decide_eq_true_eq] at hin
      show p.seqNum.toNat < 2 ^ 31
      omega
    · exact (mask_isIn_iff hbase hw).mp hmask

/-- With a slot in the window no place wraps around the ring, so that the number
counted from the start is the place. -/
theorem slotInRange_iff (hmode : cfg.mode = .sr) (hw : cfg.wsize ≤ 2 ^ 30)
    (h : StoredWithin cfg start (2 ^ 31 - 1) x) :
    SlotInRange cfg x p ↔ Unambiguous cfg x p ∧ Countable cfg start x p := by
  have hbase : IsSeqnum x.wbase := by
    rw [h.wbase hmode]
    exact isSeqnum_seqnumAdd _ _
  have hshift : x.shift < 2 ^ 30 := Nat.lt_of_le_of_lt h.shift_le (by decide)
  rw [← slot_lt_iff hmode hbase hw]
  have hnumber : ∀ k, place cfg x p = some k → sqnDis x.wbase p.seqNum < cfg.wsize →
      sqnDis start p.seqNum = k ∧ k = sqnDis x.wbase p.seqNum + x.shift := by
    intro k hk hslot
    obtain ⟨hdis, _, _⟩ := h.sqnDis_eq hk
    obtain ⟨_, heq⟩ := recvData_sr hmode hk
    omega
  constructor
  · intro hrange
    refine ⟨hrange.slot_lt, fun haccepted => ?_⟩
    obtain ⟨k, hk⟩ := Option.isSome_iff_exists.mp haccepted
    rw [(hnumber k hk (hrange.slot_lt haccepted)).1]
    exact hrange.offset k hk
  · rintro ⟨hslot, hcountable⟩
    have hat : ∀ k, place cfg x p = some k → (place cfg x p).isSome = true := by
      intro k hk
      rw [hk]
      rfl
    refine ⟨hslot, fun k hk => ?_, fun haccepted i hi => ?_, fun k hk => ?_⟩
    · have hlt := hslot (hat k hk)
      have heq := (hnumber k hk hlt).2
      omega
    · exact lt_of_mem_updateWindowSlots (hslot haccepted) hi
    · have hbytes := hcountable (hat k hk)
      rwa [(hnumber k hk (hslot (hat k hk))).1] at hbytes

end Receiver

/-- The slot that the receiver computes in selective repeat.  In every run every
accepted packet gets a slot and a place inside the window, at an offset that an
`int` holds, if and only if every data packet has a number on the ring, or meets a
window that does not reach the end of the ring, or would lie in the window without
its top bit, and no accepted one is `2 ^ 31` bytes or more from the start. -/
theorem receiver_slot_in_range_iff (cfg : ReceiverConfig) (hmode : cfg.mode = .sr)
    (hw : cfg.wsize ≤ 2 ^ 30) (x : Receiver) (hstart : IsSeqnum x.sqn) (rs : List Recv) :
    (∀ e ∈ Receiver.handled cfg (Receiver.transferStart cfg x) rs,
      Receiver.SlotInRange cfg e.1 e.2) ↔
    ∀ e ∈ Receiver.handled cfg (Receiver.transferStart cfg x) rs,
      Receiver.Unambiguous cfg e.1 e.2 ∧ Receiver.Countable cfg x.sqn e.1 e.2 :=
  Receiver.forall_handled_iff (P := Receiver.SlotInRange cfg)
    (Q := fun y p => Receiver.Unambiguous cfg y p ∧ Receiver.Countable cfg x.sqn y p)
    (I := Receiver.StoredWithin cfg x.sqn (2 ^ 31 - 1))
    (fun _ _ hy => Receiver.slotInRange_iff hmode hw hy)
    (fun _ _ hy hslot => hy.recvData fun k hk => Nat.le_sub_one_of_lt (hslot.offset k hk))
    (Receiver.storedWithin_start cfg _ hstart) rs

/-- The packet of a one-byte transfer gets slot 0. -/
theorem receiver_slot_in_range_oneByte :
    Receiver.SlotInRange (oneByte .sr).receiver
      (Receiver.transferStart (oneByte .sr).receiver Receiver.start) ⟨0, 0, [7]⟩ := by
  have h := receiver_slot_in_range_iff (oneByte .sr).receiver rfl (by decide) Receiver.start
    (by unfold IsSeqnum; decide) [.ok ⟨0, 0, [7]⟩]
  refine h.mpr ?_ (Receiver.transferStart (oneByte .sr).receiver Receiver.start, ⟨0, 0, [7]⟩)
    List.mem_cons_self
  intro e he
  rw [List.mem_singleton.mp he]
  exact ⟨Or.inl (by unfold IsSeqnum; decide), fun _ => by decide⟩

/-- A transfer of one-slot windows that starts from the largest number. -/
def atLastNumber : Receiver :=
  Receiver.transferStart (oneByte .sr).receiver { Receiver.start with sqn := 0x7fffffff }

/-- A window of one and a half million slots. -/
def hugeWindow : ReceiverConfig where
  wsize := 1500000
  wsize_pos := by decide
  mode := .sr
  ldebug := false

/-- A packet with a number above the ring is accepted into slot 6 of a window
of one slot, and in a huge window packet 1469873 is accepted although its offset
is no `int`. -/
theorem above_ring_slot_out_of_range :
    Receiver.handled (oneByte .sr).receiver atLastNumber [.ok ⟨0x80000005, 0, [7]⟩] =
        [(atLastNumber, ⟨0x80000005, 0, [7]⟩)] ∧
      Receiver.place (oneByte .sr).receiver atLastNumber ⟨0x80000005, 0, [7]⟩ = some 6 ∧
      sqnDis atLastNumber.wbase 0x80000005 = 6 ∧ (oneByte .sr).receiver.wsize = 1 ∧
      ¬ Receiver.SlotInRange (oneByte .sr).receiver atLastNumber ⟨0x80000005, 0, [7]⟩ ∧
      ¬ Receiver.SlotInRange hugeWindow (Receiver.transferStart hugeWindow Receiver.start)
        ⟨1469873, 0, [7]⟩ := by
  have hplace : Receiver.place (oneByte .sr).receiver atLastNumber ⟨0x80000005, 0, [7]⟩ =
      some 6 := by decide +kernel
  have hslot : sqnDis atLastNumber.wbase 0x80000005 = 6 := by decide +kernel
  have hfar : Receiver.place hugeWindow (Receiver.transferStart hugeWindow Receiver.start)
      ⟨1469873, 0, [7]⟩ = some 1469873 := by decide +kernel
  refine ⟨rfl, hplace, hslot, rfl, fun h => ?_, fun h => ?_⟩
  · have hlt : sqnDis atLastNumber.wbase 0x80000005 < 1 := h.slot_lt (by rw [hplace]; rfl)
    omega
  · have hoffset := h.offset 1469873 hfar
    revert hoffset
    decide

/-! ## The file buffer -/

namespace Receiver

variable {cfg : ReceiverConfig} {start : UInt32} {x : Receiver} {p : Packet}

/-- The copy of an accepted packet ends inside the buffer, and a packet whose
number, counted from `start`, leaves no room for it changes nothing.  The offset
is an `int`; a product that does not fit counts as outside. -/
structure CopyInside (cfg : ReceiverConfig) (start : UInt32) (x : Receiver) (p : Packet) :
    Prop where
  inside : ∀ k, place cfg x p = some k → k * payloadMax + p.length ≤ maxbuf
  untouched : maxbuf < sqnDis start p.seqNum * payloadMax + p.length →
    (recvData cfg x p).1.buf = x.buf

/-- An accepted packet is not behind the window, and there is room for it at its
number, counted from the number the transfer started with. -/
def Fits (cfg : ReceiverConfig) (start : UInt32) (x : Receiver) (p : Packet) : Prop :=
  (place cfg x p).isSome → x.shift ≤ sqnDis start p.seqNum ∧
    sqnDis start p.seqNum * payloadMax + p.length ≤ maxbuf

theorem copyInside_iff (h : StoredWithin cfg start maxbuf x) :
    CopyInside cfg start x p ↔ Fits cfg start x p := by
  have hshift : x.shift ≤ 1436 := h.shift_le
  constructor
  · intro hcopy haccepted
    obtain ⟨k, hplace⟩ := Option.isSome_iff_exists.mp haccepted
    obtain ⟨hdis, hle, _⟩ := h.sqnDis_eq hplace
    have hinside := hcopy.inside k hplace
    simp only [maxbuf, payloadMax] at *
    omega
  · intro hfits
    have hat : ∀ k, place cfg x p = some k →
        sqnDis start p.seqNum = k ∧ k * payloadMax + p.length ≤ maxbuf := by
      intro k hplace
      obtain ⟨hdis, hle, hlt⟩ := h.sqnDis_eq hplace
      obtain ⟨hahead, hroom⟩ := hfits (by rw [hplace]; rfl)
      -- a place beyond the ring would put the number behind the window
      have hnumber : sqnDis start p.seqNum = k := by omega
      exact ⟨hnumber, hnumber ▸ hroom⟩
    refine ⟨fun k hplace => (hat k hplace).2, fun hover => ?_⟩
    cases hplace : place cfg x p with
    | none => rw [recvData_of_not_place hplace]
    | some k =>
      obtain ⟨hnumber, hroom⟩ := hat k hplace
      rw [hnumber] at hover
      omega

end Receiver

/-- The file buffer of the receiver.  In every run every copy ends inside the
buffer and packets without room change nothing, if and only if every accepted
packet has room at its number, counted from the start of the transfer, and is
not behind the window. -/
theorem receiver_copies_inside_iff (cfg : ReceiverConfig) (x : Receiver)
    (hstart : IsSeqnum x.sqn) (rs : List Recv) :
    (∀ e ∈ Receiver.handled cfg (Receiver.transferStart cfg x) rs,
      Receiver.CopyInside cfg x.sqn e.1 e.2) ↔
    ∀ e ∈ Receiver.handled cfg (Receiver.transferStart cfg x) rs,
      Receiver.Fits cfg x.sqn e.1 e.2 :=
  Receiver.forall_handled_iff (P := Receiver.CopyInside cfg x.sqn) (Q := Receiver.Fits cfg x.sqn)
    (I := Receiver.StoredWithin cfg x.sqn maxbuf) (fun _ _ hy => Receiver.copyInside_iff hy)
    (fun _ _ hy hcopy => hy.recvData hcopy.inside) (Receiver.storedWithin_start cfg _ hstart) rs

/-- The packet of a one-byte transfer is copied to the start of the buffer. -/
theorem receiver_copies_inside_oneByte :
    Receiver.CopyInside (oneByte .gbn).receiver 0
      (Receiver.transferStart (oneByte .gbn).receiver Receiver.start) ⟨0, 0, [7]⟩ := by
  have h := receiver_copies_inside_iff (oneByte .gbn).receiver Receiver.start
    (by unfold IsSeqnum; decide) [.ok ⟨0, 0, [7]⟩]
  refine h.mpr ?_ (Receiver.transferStart (oneByte .gbn).receiver Receiver.start, ⟨0, 0, [7]⟩)
    List.mem_cons_self
  intro e he
  rw [List.mem_singleton.mp he]
  exact fun _ => ⟨by decide, by decide⟩

/-- A window wider than the file buffer. -/
def wideWindow : ReceiverConfig where
  wsize := 2000
  wsize_pos := by decide
  mode := .sr
  ldebug := false

/-- One packet of one byte with number 1436 is copied behind the buffer. -/
theorem wideWindow_overruns :
    Receiver.handled wideWindow (Receiver.transferStart wideWindow Receiver.start)
        [.ok ⟨1436, 0, [7]⟩] =
        [(Receiver.transferStart wideWindow Receiver.start, ⟨1436, 0, [7]⟩)] ∧
      Receiver.place wideWindow (Receiver.transferStart wideWindow Receiver.start)
        ⟨1436, 0, [7]⟩ = some 1436 ∧
      maxbuf < 1436 * payloadMax ∧
      ¬ Receiver.CopyInside wideWindow 0 (Receiver.transferStart wideWindow Receiver.start)
        ⟨1436, 0, [7]⟩ := by
  have hplace : Receiver.place wideWindow (Receiver.transferStart wideWindow Receiver.start)
      ⟨1436, 0, [7]⟩ = some 1436 := by decide +kernel
  refine ⟨rfl, hplace, by decide, fun h => ?_⟩
  have hinside := h.inside 1436 hplace
  revert hinside
  decide

end NetLabs.Rtp
