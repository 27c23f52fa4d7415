import NetLabs.Lib.RegisterPeriod
import NetLabs.Rtp.Corruption

/-!
# Errors that are not noticed

The checksum is linear up to a constant, so whether `recv_packet` notices an error
does not depend on the packet but on the error alone.

* `syndrome` is the sum that an error has over the bytes outside the checksum
  field, compared with what the error does to the field.
* `accepted_iff_syndrome`: the errors that are not noticed are those without a
  syndrome that leave the length field alone.
* `iterate_syndrome_oneBit`: the syndrome of a single bit is a power of the shift
  register, a different one for every bit of the datagram.
* `crc32_period`: a datagram is much shorter than the period of the register, and
  so no two flipped bits cancel (`two_bits_rejected`).
* `errors_noticed` puts both together.
-/

namespace NetLabs.Rtp

open NetLabs.Lib Function

/-! ## The syndrome -/

/-- The error without what it does to the checksum field. -/
def maskField (error : List UInt8) : List UInt8 :=
  error.take 6 ++ ([0, 0, 0, 0] ++ error.drop 10)

/-- What an error does to the sum, and to the field that holds it. -/
def syndrome (error : List UInt8) : BitVec 32 :=
  feedBits crc32PolyBits 0#32 (bitsOf (maskField error)) ^^^ wordOf 32 (bitsOf (slice error 6 4))

/-- The bits of a number are those of its bytes. -/
theorem testBit_ofLE (bytes : List UInt8) (i : Nat) :
    (ofLE bytes).testBit i = (bitsOf bytes).getD i false := by
  induction bytes generalizing i with
  | nil => simp [ofLE, bitsOf]
  | cons b bytes ih =>
    have hb : b.toNat < 2 ^ 8 := b.toNat_lt
    have hsplit : ofLE (b :: bytes) = 2 ^ 8 * ofLE bytes + b.toNat := by
      rw [ofLE]
      omega
    rw [hsplit, Nat.testBit_two_pow_mul_add _ hb, bitsOf, List.flatMap_cons,
      List.getD_eq_getElem?_getD, List.getElem?_append, byteBits_length]
    by_cases hi : i < 8
    · rw [if_pos hi, if_pos hi, byteBits, List.getElem?_map, List.getElem?_range hi]
      rfl
    · rw [if_neg hi, if_neg hi, ih, List.getD_eq_getElem?_getD]
      rfl

theorem wordOf_bitsOf (bytes : List UInt8) :
    wordOf 32 (bitsOf bytes) = (UInt32.ofNat (ofLE bytes)).toBitVec := by
  apply BitVec.eq_of_getLsbD_eq
  intro i hi
  rw [getLsbD_wordOf hi, ← testBit_ofLE]
  show _ = (ofLE bytes % 2 ^ 32).testBit i
  rw [Nat.testBit_mod_two_pow, decide_eq_true hi, Bool.true_and]

/-- The words of two bit strings, added. -/
theorem wordOf_xor {w : Nat} {bits bits' : List Bool} (h : bits.length = bits'.length) :
    wordOf w (List.zipWith xor bits bits') = wordOf w bits ^^^ wordOf w bits' := by
  apply BitVec.eq_of_getLsbD_eq
  intro i hi
  rw [BitVec.getLsbD_xor, getLsbD_wordOf hi, getLsbD_wordOf hi, getLsbD_wordOf hi]
  simp only [List.getD_eq_getElem?_getD, List.getElem?_zipWith]
  by_cases hlt : i < bits.length
  · rw [List.getElem?_eq_getElem hlt, List.getElem?_eq_getElem (by omega)]
    rfl
  · rw [List.getElem?_eq_none (by omega), List.getElem?_eq_none (by omega)]
    rfl

/-- A word in the checksum field, corrupted and read back. -/
theorem toBitVec_field_corrupt (word : UInt32) {error : List UInt8} (h : error.length = 4) :
    (UInt32.ofNat (ofLE (corrupt (toLE 4 word.toNat) error))).toBitVec =
      word.toBitVec ^^^ wordOf 32 (bitsOf error) := by
  have hsame : UInt32.ofNat (ofLE (toLE 4 word.toNat)) = word := by
    have hlt := word.toNat_lt
    rw [ofLE_toLE, Nat.mod_eq_of_lt (by omega), UInt32.ofNat_toNat]
  have hlength : (bitsOf (toLE 4 word.toNat)).length = (bitsOf error).length := by
    rw [bitsOf_length, bitsOf_length, toLE_length, h]
  rw [← wordOf_bitsOf, corrupt, ← xor_bitsOf, wordOf_xor hlength, wordOf_bitsOf, hsame]

/-- The sum over corrupted bytes. -/
theorem toBitVec_computeChecksum_corrupt {bytes error : List UInt8}
    (h : bytes.length = error.length) :
    (computeChecksum (corrupt bytes error)).toBitVec =
      (computeChecksum bytes).toBitVec ^^^ feedBits crc32PolyBits 0#32 (bitsOf error) := by
  have hlength : (bitsOf bytes).length = (bitsOf error).length := by
    rw [bitsOf_length, bitsOf_length, h]
  rw [toBitVec_computeChecksum, toBitVec_computeChecksum, ← BitVec.not_xor_left,
    ← feedBits_xor hlength, BitVec.xor_zero, xor_bitsOf]
  rfl

theorem slice_corrupt (bytes error : List UInt8) (offset width : Nat) :
    slice (corrupt bytes error) offset width =
      corrupt (slice bytes offset width) (slice error offset width) := by
  rw [slice, corrupt, List.drop_zipWith, List.take_zipWith]
  rfl

/-- A field of the first part. -/
theorem slice_append_left {front back : List UInt8} {offset width : Nat}
    (h : offset + width ≤ front.length) :
    slice (front ++ back) offset width = slice front offset width := by
  rw [slice, List.drop_append_of_le_length (by omega), List.take_append_of_le_length]
  · rfl
  · rw [List.length_drop]
    omega

/-! ## Which errors are accepted -/

section Accepted

variable {p : Packet} {error : List UInt8}

theorem maskField_length (h : 10 ≤ error.length) : (maskField error).length = error.length := by
  simp only [maskField, List.length_append, List.length_take, List.length_drop, List.length_cons,
    List.length_nil]
  omega

/-- The two tests of `recv_packet`. -/
theorem scode_eq_zero_iff (m : PacketMem) (datagram : List UInt8) :
    (recvPacket m datagram).1.scode = 0 ↔
      (m.recvfrom datagram).checksum = computeChecksum
        ((m.recvfrom datagram).clearChecksum.bytes.take (min datagram.length rtpPacketSize)) ∧
      (m.recvfrom datagram).length ≤ payloadMax ∧
      (m.recvfrom datagram).length + rtpHeaderSize = min datagram.length rtpPacketSize := by
  constructor
  · intro hzero
    obtain ⟨_, rfl, hcksm, hmax, hsize, _⟩ := tests_of_recvPacket (recvPacket_eq_ok_of_scode hzero)
    exact ⟨hcksm, hmax, hsize⟩
  · rintro ⟨hcksm, hmax, hsize⟩
    rw [← PacketMem.length_clearChecksum] at hmax hsize
    unfold recvPacket
    simp only
    rw [if_neg (not_not.mpr hcksm), if_neg (by omega)]
    rfl

/-- The checksum test passes exactly when there is no syndrome. -/
theorem checksum_agrees_iff (hp : p.payload.length ≤ payloadMax) (m : PacketMem)
    (hlength : error.length = (sendPacket p).length) :
    (m.recvfrom (corrupt (sendPacket p) error)).checksum = computeChecksum
        ((m.recvfrom (corrupt (sendPacket p) error)).clearChecksum.bytes.take
          (min (corrupt (sendPacket p) error).length rtpPacketSize)) ↔
      syndrome error = 0#32 := by
  obtain ⟨front, back, hfront, hback, hparts⟩ := corrupt_encode p hlength
  let sum := computeChecksum (p.encode 0)
  have hten : 10 ≤ error.length := by
    rw [hlength, sendPacket, encode_length, rtpHeaderSize]
    omega
  have hfield : (slice error 6 4).length = 4 := slice_length hten
  have hword : (toLE 4 sum.toNat).length = (slice error 6 4).length := by
    rw [toLE_length, hfield]
  have hreceived : corrupt (sendPacket p) error = _ := (hparts sum).2
  have hfit : (corrupt (sendPacket p) error).length ≤ rtpPacketSize := by
    rw [corrupt_length hlength.symm, sendPacket, encode_length, rtpPacketSize]
    omega
  have hbefore : (corrupt front (error.take 6)).length = 6 := by
    rw [corrupt_length hfront, hfront, List.length_take]
    omega
  have hcksm : (corrupt (toLE 4 sum.toNat) (slice error 6 4)).length = 4 := by
    rw [corrupt_length hword, toLE_length]
  rw [hreceived] at hfit ⊢
  obtain ⟨hread, hsummed⟩ := received_parts m hbefore hcksm hfit
  have hbody : p.encode 0 = front ++ ([0, 0, 0, 0] ++ back) := (hparts 0).1
  have hmasked : corrupt (p.encode 0) (maskField error) = corrupt front (error.take 6) ++
      ([0, 0, 0, 0] ++ corrupt back (error.drop 10)) := by
    rw [hbody, maskField, corrupt_append hfront, corrupt_append rfl]
    rfl
  have hlong : (p.encode 0).length = (maskField error).length := by
    rw [maskField_length hten, hlength, sendPacket, encode_length, encode_length]
  rw [hread, hsummed, ← hmasked, ← UInt32.toBitVec_inj, toBitVec_field_corrupt sum hfield,
    toBitVec_computeChecksum_corrupt hlong, BitVec.xor_right_inj, syndrome, BitVec.xor_eq_zero_iff,
    eq_comm]

/-- The length field of a datagram that begins with one of `send_packet`. -/
theorem slice_of_prefix {datagram : List UInt8} {p : Packet} (h : sendPacket p <+: datagram) :
    slice datagram 4 2 = toLE 2 p.length := by
  obtain ⟨rest, rfl⟩ := h
  simp only [sendPacket, Packet.encode, List.append_assoc]
  rw [slice_append_right (by simp), toLE_length, slice_append (toLE_length 2 _)]

/-- The length field that is received. -/
theorem length_corrupt (hp : p.payload.length ≤ payloadMax) (m : PacketMem)
    (hlength : error.length = (sendPacket p).length) :
    (m.recvfrom (corrupt (sendPacket p) error)).length =
      ofLE (corrupt (toLE 2 p.length) (slice error 4 2)) := by
  have hsize : (corrupt (sendPacket p) error).length = 11 + p.payload.length := by
    rw [corrupt_length hlength.symm, sendPacket, encode_length, rtpHeaderSize]
  have hfit : (corrupt (sendPacket p) error).length ≤ rtpPacketSize := by
    rw [hsize, rtpPacketSize, rtpHeaderSize]
    omega
  have hfield : slice (sendPacket p) 4 2 = toLE 2 p.length := slice_of_prefix (List.prefix_refl _)
  rw [PacketMem.length, PacketMem.bytes_recvfrom, List.take_of_length_le hfit,
    slice_append_left (by omega), slice_corrupt, hfield]

/-- A corrupted datagram is accepted exactly when its error has no syndrome and
leaves the length field alone. -/
theorem accepted_iff_syndrome (hp : p.payload.length ≤ payloadMax) (m : PacketMem)
    (hlength : error.length = (sendPacket p).length) :
    (recvPacket m (corrupt (sendPacket p) error)).1.scode = 0 ↔
      syndrome error = 0#32 ∧ ∀ b ∈ slice error 4 2, b = 0 := by
  have hsize : (sendPacket p).length = 11 + p.payload.length := by
    rw [sendPacket, encode_length, rtpHeaderSize]
  have hwidth : (toLE 2 p.length).length = (slice error 4 2).length := by
    rw [toLE_length, slice_length (by omega)]
  have hsmall : p.length < 256 ^ 2 := by
    simp only [Packet.length, payloadMax] at hp ⊢
    omega
  have hback : ofLE (toLE 2 p.length) = p.payload.length := by
    rw [ofLE_toLE, Nat.mod_eq_of_lt hsmall, Packet.length]
  have hread := length_corrupt hp m hlength
  rw [scode_eq_zero_iff, checksum_agrees_iff hp m hlength, hread, corrupt_length hlength.symm, hsize]
  refine and_congr_right fun _ => ⟨fun hsizes => ?_, fun hzeros => ?_⟩
  · -- the length that is read is the one that was written
    have hsame := hsizes.2
    have hlengths : ofLE (corrupt (toLE 2 p.length) (slice error 4 2)) =
        ofLE (toLE 2 p.length) := by
      rw [hback]
      simp only [rtpHeaderSize, rtpPacketSize] at hsame
      omega
    have hcorrupt : (corrupt (toLE 2 p.length) (slice error 4 2)).length = 2 := by
      rw [corrupt_length hwidth, toLE_length]
    apply zeros_of_corrupt_eq hwidth
    rw [← toLE_ofLE hcorrupt, hlengths, toLE_ofLE (toLE_length 2 _)]
  · rw [corrupt_zeros hwidth hzeros, hback]
    simp only [rtpHeaderSize, rtpPacketSize]
    omega

end Accepted

/-! ## Syndromes add up -/

theorem maskField_corrupt {error error' : List UInt8} (h : error.length = error'.length) :
    maskField (corrupt error error') = corrupt (maskField error) (maskField error') := by
  have hfront : (error.take 6).length = (error'.take 6).length := by
    rw [List.length_take, List.length_take, h]
  rw [maskField, maskField, maskField, corrupt_append hfront, corrupt_append rfl, corrupt,
    List.take_zipWith, List.drop_zipWith]
  rfl

theorem syndrome_corrupt {error error' : List UInt8} (h : error.length = error'.length)
    (hten : 10 ≤ error.length) :
    syndrome (corrupt error error') = syndrome error ^^^ syndrome error' := by
  have hmask : (bitsOf (maskField error)).length = (bitsOf (maskField error')).length := by
    rw [bitsOf_length, bitsOf_length, maskField_length hten, maskField_length (h ▸ hten), h]
  have hfield : (bitsOf (slice error 6 4)).length = (bitsOf (slice error' 6 4)).length := by
    rw [bitsOf_length, bitsOf_length, slice_length hten, slice_length (h ▸ hten)]
  have hsum : feedBits crc32PolyBits (0#32 ^^^ 0#32) _ = _ := feedBits_xor hmask 0#32 0#32
  rw [BitVec.xor_zero, xor_bitsOf] at hsum
  rw [syndrome, maskField_corrupt h, slice_corrupt, corrupt, corrupt, hsum, ← xor_bitsOf,
    wordOf_xor hfield, syndrome, syndrome]
  ac_rfl

/-! ## The syndrome of one bit -/

theorem bitsOf_take (bytes : List UInt8) (n : Nat) :
    bitsOf (bytes.take n) = (bitsOf bytes).take (8 * n) := by
  induction bytes generalizing n with
  | nil => simp [bitsOf]
  | cons b bytes ih =>
    cases n with
    | zero => rfl
    | succ n =>
      have hcons : ∀ bytes, bitsOf (b :: bytes) = byteBits b ++ bitsOf bytes := fun _ => rfl
      have hwhole : (byteBits b).take (8 * (n + 1)) = byteBits b :=
        List.take_of_length_le (by rw [byteBits_length]; omega)
      rw [List.take_succ_cons, hcons, hcons, ih, List.take_append, hwhole, byteBits_length,
        show 8 * (n + 1) - 8 = 8 * n by omega]

theorem bitsOf_drop (bytes : List UInt8) (n : Nat) :
    bitsOf (bytes.drop n) = (bitsOf bytes).drop (8 * n) := by
  induction bytes generalizing n with
  | nil => simp [bitsOf]
  | cons b bytes ih =>
    cases n with
    | zero => rfl
    | succ n =>
      have hcons : ∀ bytes, bitsOf (b :: bytes) = byteBits b ++ bitsOf bytes := fun _ => rfl
      have hwhole : (byteBits b).drop (8 * (n + 1)) = [] :=
        List.drop_of_length_le (by rw [byteBits_length]; omega)
      rw [List.drop_succ_cons, hcons, ih, List.drop_append, hwhole, byteBits_length,
        show 8 * (n + 1) - 8 = 8 * n by omega, List.nil_append]

/-- The bits that reach the sum. -/
theorem getElem?_maskField {error : List UInt8} (hten : 10 ≤ error.length) (k : Nat) :
    (bitsOf (maskField error))[k]? = some true ↔
      (k < 48 ∨ 80 ≤ k) ∧ (bitsOf error)[k]? = some true := by
  have hzeros : bitsOf [0, 0, 0, 0] = List.replicate 32 false := by decide
  have hlength : ((bitsOf error).take 48).length = 48 := by
    rw [List.length_take, bitsOf_length]
    omega
  rw [maskField, bitsOf_append, bitsOf_append, bitsOf_take, bitsOf_drop, hzeros,
    List.getElem?_append, hlength]
  by_cases hfront : k < 48
  · rw [if_pos hfront, List.getElem?_take_of_lt hfront]
    exact ⟨fun h => ⟨.inl hfront, h⟩, fun h => h.2⟩
  · rw [if_neg hfront, List.getElem?_append, List.length_replicate]
    by_cases hback : k < 80
    · rw [if_pos (by omega), List.getElem?_replicate_of_lt (by omega)]
      exact ⟨nofun, fun h => absurd h.1 (by omega)⟩
    · rw [if_neg (by omega), List.getElem?_drop, show 8 * 10 + (k - 48 - 32) = k by omega]
      exact ⟨fun h => ⟨.inr (by omega), h⟩, fun h => h.2⟩

/-- The bits that reach the checksum field. -/
theorem getElem?_field {error : List UInt8} (k : Nat) :
    (bitsOf (slice error 6 4))[k]? = some true ↔
      k < 32 ∧ (bitsOf error)[48 + k]? = some true := by
  rw [slice, bitsOf_take, bitsOf_drop]
  by_cases hk : k < 32
  · rw [List.getElem?_take_of_lt hk, List.getElem?_drop]
    exact ⟨fun h => ⟨hk, h⟩, fun h => h.2⟩
  · rw [List.getElem?_take_eq_none (by omega)]
    exact ⟨fun h => absurd h (Option.some_ne_none true).symm, fun h => absurd h.1 hk⟩

/-- The power that a bit of a datagram with `size` bytes leaves behind: the bits
of the checksum field come first, then the others from the last one on. -/
def bitRank (size i : Nat) : Nat :=
  if i < 48 ∨ 80 ≤ i then 31 + (8 * size - i) else 79 - i

theorem iterate_syndrome_oneBit {size i : Nat} (hten : 10 ≤ size) (hi : i < 8 * size) :
    (shiftOut crc32PolyBits)^[31] (syndrome (oneBit size i)) =
      (shiftOut crc32PolyBits)^[bitRank size i] (lowBit 32 true) := by
  have hten' : 10 ≤ (oneBit size i).length := by
    rw [oneBit_length]
    exact hten
  by_cases hcovered : i < 48 ∨ 80 ≤ i
  · have hmask : ∀ k, (bitsOf (maskField (oneBit size i)))[k]? = some true ↔ k = i := by
      intro k
      rw [getElem?_maskField hten', getElem?_bitsOf_oneBit hi]
      exact ⟨fun h => h.2, fun h => ⟨h ▸ hcovered, h⟩⟩
    have hfield : true ∉ bitsOf (slice (oneBit size i) 6 4) := by
      intro hset
      have ⟨k, hk⟩ := List.mem_iff_getElem?.mp hset
      rw [getElem?_field, getElem?_bitsOf_oneBit hi] at hk
      omega
    rw [syndrome, feedBits_single hmask, wordOf_eq_zero hfield, BitVec.xor_zero,
      ← iterate_add_apply, bitRank, if_pos hcovered, bitsOf_length, maskField_length hten',
      oneBit_length]
  · have hmask : ∀ b ∈ bitsOf (maskField (oneBit size i)), b = false := by
      intro b hb
      rw [← Bool.not_eq_true]
      rintro rfl
      have ⟨k, hk⟩ := List.mem_iff_getElem?.mp hb
      rw [getElem?_maskField hten', getElem?_bitsOf_oneBit hi] at hk
      exact hcovered (hk.2 ▸ hk.1)
    have hfield : ∀ k, (bitsOf (slice (oneBit size i) 6 4))[k]? = some true ↔ k = i - 48 := by
      intro k
      rw [getElem?_field, getElem?_bitsOf_oneBit hi]
      omega
    have hsplit : 31 = 79 - i + (i - 48) := by omega
    rw [syndrome, feedBits_zeros hmask, iterate_shiftOut_zero, BitVec.zero_xor, bitRank,
      if_neg hcovered, hsplit, iterate_add_apply, iterate_wordOf_single (by omega) hfield]

theorem bitRank_injective {size i j : Nat} (hi : i < 8 * size) (hj : j < 8 * size)
    (h : bitRank size i = bitRank size j) : i = j := by
  simp only [bitRank] at h
  split_ifs at h <;> omega

/-! ## The period of the polynomial -/

/-- The powers that repeated squaring goes through. -/
def squareTable : List (BitVec 32) :=
  [0xEDB88320#32, 0xB1E6B092#32, 0xA06A2517#32, 0xED627DAE#32, 0x88D14467#32, 0xD7BBFE6A#32,
    0xEC447F11#32, 0x8E7EA170#32, 0x6427800E#32, 0x4D47BAE0#32, 0x09FE548F#32, 0x83852D0F#32,
    0x30362F1A#32, 0x7B5A9CC3#32, 0x31FEC169#32, 0x9FEC022A#32, 0x6C8DEDC4#32, 0x15D6874D#32,
    0x5FDE7A4E#32, 0xBAD90E37#32, 0x2E4E5EEF#32, 0x4EABA214#32, 0xA8A472C0#32, 0x429A969E#32,
    0x148D302A#32, 0xC40BA6D0#32, 0xC4E22C3C#32, 0x40000000#32]

theorem squareTable_step : ∀ d < 27, times crc32PolyBits (squareTable.getD d 0#32)
    (squareTable.getD d 0#32) = squareTable.getD (d + 1) 0#32 := by
  decide +kernel

theorem squares_eq_table {d : Nat} (hd : d ≤ 27) :
    squares crc32PolyBits d = squareTable.getD d 0#32 := by
  induction d with
  | zero => decide
  | succ d ih => rw [squares, ih (by omega), squareTable_step d (by omega)]

/-- The register runs through at least 65537 states. -/
theorem crc32_period : 65537 ≤ minimalPeriod (shiftOut crc32PolyBits) (lowBit 32 true) := by
  -- `2 ^ 32 - 1 = 65535 * 65537`, and 65537 is a prime
  have hprime : Nat.Prime 65537 := by norm_num
  have hlong : 65535 * 65537 = 30 + ((2 ^ 27 - 1) * 32 + 1) := by norm_num
  have hshort : 65535 = 30 + ((2 ^ 11 - 1) * 32 + 1) := by norm_num
  apply le_minimalPeriod hprime (show 0 < 65535 by norm_num)
  · rw [hlong, IsPeriodicPt, IsFixedPt, iterate_add_apply, ← squares_eq, squares_eq_table (by omega)]
    decide +kernel
  · rw [hshort, IsPeriodicPt, IsFixedPt, iterate_add_apply, ← squares_eq,
      squares_eq_table (by omega)]
    decide +kernel

/-! ## Two bits -/

theorem corrupt_assoc (bytes error error' : List UInt8) :
    corrupt (corrupt bytes error) error' = corrupt bytes (corrupt error error') := by
  induction bytes generalizing error error' with
  | nil => rfl
  | cons b bytes ih =>
    cases error with
    | nil => rfl
    | cons e error =>
      cases error' with
      | nil => rfl
      | cons e' error' =>
        show (b ^^^ e ^^^ e') :: _ = (b ^^^ (e ^^^ e')) :: _
        rw [UInt8.xor_assoc]
        exact congrArg (_ :: ·) (ih error error')

/-- No two bits cancel. -/
theorem two_bits_rejected {p : Packet} (hp : p.payload.length ≤ payloadMax) (m : PacketMem)
    {i j : Nat} (hi : i < 8 * (sendPacket p).length) (hj : j < 8 * (sendPacket p).length)
    (hne : i ≠ j) :
    (recvPacket m (flipBit (flipBit (sendPacket p) i) j)).1.scode = -1 := by
  have hsize : (sendPacket p).length = 11 + p.payload.length := by
    rw [sendPacket, encode_length, rtpHeaderSize]
  have hflip : flipBit (flipBit (sendPacket p) i) j = corrupt (sendPacket p)
      (corrupt (oneBit (sendPacket p).length i) (oneBit (sendPacket p).length j)) := by
    rw [flipBit_eq_corrupt, flipBit_eq_corrupt, corrupt_length (oneBit_length _ _).symm,
      corrupt_assoc]
  have hsame : (oneBit (sendPacket p).length i).length = (oneBit (sendPacket p).length j).length := by
    rw [oneBit_length, oneBit_length]
  apply scode_eq_neg_one
  rw [hflip, Ne, accepted_iff_syndrome hp m (by rw [corrupt_length hsame, oneBit_length])]
  rintro ⟨hsyndrome, _⟩
  rw [syndrome_corrupt hsame (by rw [oneBit_length]; omega), BitVec.xor_eq_zero_iff] at hsyndrome
  have hpowers := congrArg (shiftOut crc32PolyBits)^[31] hsyndrome
  rw [iterate_syndrome_oneBit (by omega) hi, iterate_syndrome_oneBit (by omega) hj] at hpowers
  have hrank : ∀ k, bitRank (sendPacket p).length k <
      minimalPeriod (shiftOut crc32PolyBits) (lowBit 32 true) := by
    intro k
    have hperiod := crc32_period
    simp only [payloadMax] at hp
    simp only [bitRank]
    split_ifs <;> omega
  exact hne (bitRank_injective hi hj (iterate_injOn (hrank i) (hrank j) hpowers))

/-- **Which errors are noticed**: whatever the packet is, an error of any kind is
accepted exactly when it has no syndrome and leaves the length field alone, and
no two flipped bits are accepted, wherever they are. -/
theorem errors_noticed {p : Packet} (hp : p.payload.length ≤ payloadMax) (m : PacketMem) :
    (∀ error : List UInt8, error.length = (sendPacket p).length →
      ((recvPacket m (corrupt (sendPacket p) error)).1.scode = 0 ↔
        syndrome error = 0#32 ∧ ∀ b ∈ slice error 4 2, b = 0)) ∧
    ∀ i j, i < 8 * (sendPacket p).length → j < 8 * (sendPacket p).length → i ≠ j →
      (recvPacket m (flipBit (flipBit (sendPacket p) i) j)).1.scode = -1 :=
  ⟨fun _ hlength => accepted_iff_syndrome hp m hlength,
    fun _ _ hi hj hne => two_bits_rejected hp m hi hj hne⟩

/-- In an acknowledgement the last flag can be flipped together with the checksum,
and no other bit can be flipped with it. -/
theorem errors_noticed_ack :
    (recvPacket ⟨.replicate rtpPacketSize 0, by simp⟩
      (corrupt (sendPacket (controlPacket 1 rtpAck))
        [0, 0, 0, 0, 0, 0, 0x20, 0x83, 0xB8, 0xED, 0x80])).1.scode = 0 ∧
    ∀ i < 87, (recvPacket ⟨.replicate rtpPacketSize 0, by simp⟩
      (flipBit (flipBit (sendPacket (controlPacket 1 rtpAck)) i) 87)).1.scode = -1 := by
  have hlength : (sendPacket (controlPacket 1 rtpAck)).length = 11 := encode_length _ _
  have ⟨hexact, htwo⟩ := errors_noticed (p := controlPacket 1 rtpAck) (by decide)
    ⟨.replicate rtpPacketSize 0, by simp⟩
  constructor
  · have hfield : ∀ b ∈ slice [0, 0, 0, 0, 0, 0, 0x20, 0x83, 0xB8, 0xED, (0x80 : UInt8)] 4 2,
        b = 0 := by simp [slice]
    exact (hexact _ (by rw [hlength]; rfl)).mpr ⟨by decide +kernel, hfield⟩
  · intro i hi
    rw [hlength] at htwo
    exact htwo i 87 (by omega) (by decide) (by omega)

end NetLabs.Rtp
