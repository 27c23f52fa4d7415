import NetLabs.Lib.ErrorPattern
import NetLabs.Rtp.Checksum
import NetLabs.Rtp.Codec

/-!
# Corrupted datagrams

The checksum field stands inside the bytes that it is computed over, as zeros.
A burst that leaves the field alone reaches the shift register as it is, and one
inside the field leaves the sum over the other bytes as it was.

* `Region` is one of the three parts that the checksum field makes.
* `scode_of_checksum`: a datagram whose field is not the checksum over its bytes
  is rejected.
* `corruption_detected`: no burst of up to 32 bits inside one region is accepted.
-/

namespace NetLabs.Rtp

open NetLabs.Lib

/-- The parts of a datagram before, in, and behind the checksum field. -/
inductive Region where
  | front
  | checksum
  | back
  deriving DecidableEq, Repr

/-- Where a region begins. -/
def Region.start : Region → Nat
  | .front => 0
  | .checksum => 6
  | .back => 10

/-- Where a region of a datagram with `size` bytes ends. -/
def Region.stop (size : Nat) : Region → Nat
  | .front => 6
  | .checksum => 10
  | .back => size

/-- The bits of an error pattern that are set lie inside the region. -/
def InRegion (region : Region) (error : List UInt8) : Prop :=
  ∀ i, (bitsOf error)[i]? = some true →
    8 * region.start ≤ i ∧ i < 8 * region.stop error.length

/-! ## The tests of `recv_packet` -/

theorem scode_of_checksum {m : PacketMem} {datagram : List UInt8}
    (h : (m.recvfrom datagram).checksum ≠ computeChecksum
      ((m.recvfrom datagram).clearChecksum.bytes.take (min datagram.length rtpPacketSize))) :
    (recvPacket m datagram).1.scode = -1 := by
  unfold recvPacket
  simp only
  rw [if_pos h]
  rfl

/-- The checksum field of a received datagram, and the bytes that its checksum is
computed over. -/
theorem received_parts (m : PacketMem) {front cksm back : List UInt8} (hfront : front.length = 6)
    (hcksm : cksm.length = 4) (hfit : (front ++ (cksm ++ back)).length ≤ rtpPacketSize) :
    (m.recvfrom (front ++ (cksm ++ back))).checksum = .ofNat (ofLE cksm) ∧
    (m.recvfrom (front ++ (cksm ++ back))).clearChecksum.bytes.take
        (min (front ++ (cksm ++ back)).length rtpPacketSize) =
      front ++ ([0, 0, 0, 0] ++ back) := by
  let rest := m.bytes.drop (front ++ (cksm ++ back)).length
  have hbytes : (m.recvfrom (front ++ (cksm ++ back))).bytes =
      front ++ (cksm ++ (back ++ rest)) := by
    rw [PacketMem.bytes_recvfrom, List.take_of_length_le hfit, Nat.min_eq_left hfit]
    simp only [List.append_assoc, rest]
  have hcleared : (m.recvfrom (front ++ (cksm ++ back))).clearChecksum.bytes =
      front ++ ([0, 0, 0, 0] ++ (back ++ rest)) := by
    show splice (m.recvfrom (front ++ (cksm ++ back))).bytes 6 [0, 0, 0, 0] = _
    rw [hbytes, ← hfront, splice_append hcksm]
  constructor
  · rw [PacketMem.checksum, hbytes, slice_append_right (by omega), hfront,
      slice_append hcksm]
  · have hlength : (front ++ (cksm ++ back)).length =
        (front ++ ([0, 0, 0, 0] ++ back)).length := by
      simp only [List.length_append, hcksm, List.length_cons, List.length_nil]
    have hsplit : front ++ ([0, 0, 0, 0] ++ (back ++ rest)) =
        (front ++ ([0, 0, 0, 0] ++ back)) ++ rest := by
      simp only [List.append_assoc]
    rw [Nat.min_eq_left hfit, hcleared, hlength, hsplit, List.take_left]

/-- A burst of up to 32 bits changes the checksum. -/
theorem computeChecksum_corrupt_ne {bytes error : List UInt8} (h : bytes.length = error.length)
    (hburst : BurstWithin 32 error) :
    computeChecksum bytes ≠ computeChecksum (corrupt bytes error) := by
  intro heq
  have hregisters := congrArg UInt32.toBitVec heq
  rw [toBitVec_computeChecksum, toBitVec_computeChecksum, BitVec.not_inj] at hregisters
  exact feedBits_corrupt_ne crc32PolyBits_msb h hburst _ hregisters

/-! ## The three regions -/

/-- Outside its region an error pattern is zero. -/
theorem InRegion.eq_zero {region : Region} {error : List UInt8} (h : InRegion region error)
    {q : Nat} {b : UInt8} (hb : error[q]? = some b)
    (hout : q < region.start ∨ region.stop error.length ≤ q) : b = 0 := by
  apply eq_zero_of_bits hb
  intro j hj hset
  have ⟨hlow, hhigh⟩ := h _ hset
  omega

theorem InRegion.take_zeros {region : Region} {error : List UInt8} (h : InRegion region error)
    {n : Nat} (hn : n ≤ region.start) : ∀ b ∈ error.take n, b = 0 := by
  intro b hb
  have ⟨q, hq⟩ := List.mem_iff_getElem?.mp hb
  have ⟨hlt, _⟩ := List.getElem?_eq_some_iff.mp hq
  rw [List.length_take] at hlt
  rw [List.getElem?_take_of_lt (by omega)] at hq
  exact h.eq_zero hq (.inl (by omega))

theorem InRegion.drop_zeros {region : Region} {error : List UInt8} (h : InRegion region error)
    {n : Nat} (hn : region.stop error.length ≤ n) : ∀ b ∈ error.drop n, b = 0 := by
  intro b hb
  have ⟨q, hq⟩ := List.mem_iff_getElem?.mp hb
  rw [List.getElem?_drop] at hq
  exact h.eq_zero hq (.inr (by omega))

/-- An error outside the checksum field leaves the field alone. -/
theorem InRegion.field_zeros {region : Region} {error : List UInt8} (h : InRegion region error)
    (hregion : region ≠ .checksum) : ∀ b ∈ slice error 6 4, b = 0 := by
  intro b hb
  have ⟨q, hq⟩ := List.mem_iff_getElem?.mp hb
  have ⟨hlt, _⟩ := List.getElem?_eq_some_iff.mp hq
  rw [slice, List.length_take] at hlt
  rw [slice, List.getElem?_take_of_lt (by omega), List.getElem?_drop] at hq
  apply h.eq_zero hq
  cases region with
  | front => exact .inr (Nat.le_add_right 6 q)
  | checksum => exact absurd rfl hregion
  | back => exact .inl (show 6 + q < 10 by omega)

/-- The four bytes of a word are not read as that word once they have been
corrupted. -/
theorem ofNat_ofLE_corrupt_ne (word : UInt32) {error : List UInt8} (h : error.length = 4)
    (hset : true ∈ bitsOf error) :
    UInt32.ofNat (ofLE (corrupt (toLE 4 word.toNat) error)) ≠ word := by
  have hlength : (toLE 4 word.toNat).length = error.length := by
    rw [toLE_length, h]
  have hfield : (corrupt (toLE 4 word.toNat) error).length = 4 := by
    rw [corrupt_length hlength, toLE_length]
  have hlt := ofLE_lt (corrupt (toLE 4 word.toNat) error)
  rw [hfield] at hlt
  intro heq
  have hread : ofLE (corrupt (toLE 4 word.toNat) error) = word.toNat := by
    have hnat := congrArg UInt32.toNat heq
    rw [UInt32.toNat_ofNat_of_lt' (by exact hlt)] at hnat
    exact hnat
  have hsame : corrupt (toLE 4 word.toNat) error = toLE 4 word.toNat := by
    have hback := toLE_ofLE hfield
    rw [hread] at hback
    exact hback.symm
  exact not_mem_bitsOf_zeros (zeros_of_corrupt_eq hlength hsame) hset

/-- A burst inside the checksum field changes it. -/
theorem InRegion.set_field {error : List UInt8} (h : InRegion .checksum error)
    (hset : true ∈ bitsOf error) : true ∈ bitsOf (slice error 6 4) := by
  have hsplit : error = error.take 6 ++ (slice error 6 4 ++ error.drop 10) :=
    (take_slice_drop error 6 4).symm
  rw [hsplit, bitsOf_append, bitsOf_append, List.mem_append, List.mem_append] at hset
  rcases hset with hset | hset | hset
  · exact absurd hset (not_mem_bitsOf_zeros (h.take_zeros (le_refl 6)))
  · exact hset
  · exact absurd hset (not_mem_bitsOf_zeros (h.drop_zeros (le_refl 10)))

/-- An encoded packet and what an error makes of it, for every word in the checksum
field. -/
theorem corrupt_encode (p : Packet) {error : List UInt8}
    (h : error.length = (sendPacket p).length) :
    ∃ front back : List UInt8, front.length = (error.take 6).length ∧
      back.length = (error.drop 10).length ∧
      ∀ c, p.encode c = front ++ (toLE 4 c.toNat ++ back) ∧
        corrupt (p.encode c) error = corrupt front (error.take 6) ++
          (corrupt (toLE 4 c.toNat) (slice error 6 4) ++ corrupt back (error.drop 10)) := by
  have hsize : error.length = 11 + p.payload.length := by
    rw [h]
    exact encode_length _ _
  have hfront : (toLE 4 p.seqNum.toNat ++ toLE 2 p.length).length = (error.take 6).length := by
    rw [List.length_take, List.length_append, toLE_length, toLE_length]
    omega
  have hback : ([p.flags] ++ p.payload).length = (error.drop 10).length := by
    rw [List.length_drop, List.length_append, List.length_singleton]
    omega
  have hfield : ∀ c : UInt32, (toLE 4 c.toNat).length = (slice error 6 4).length := by
    intro c
    rw [toLE_length, slice_length (by omega)]
  have hencode : ∀ c, p.encode c = (toLE 4 p.seqNum.toNat ++ toLE 2 p.length) ++
      (toLE 4 c.toNat ++ ([p.flags] ++ p.payload)) := by
    intro c
    rw [Packet.encode]
    simp only [List.append_assoc]
  refine ⟨_, _, hfront, hback, fun c => ⟨hencode c, ?_⟩⟩
  rw [hencode c]
  conv_lhs => rw [← take_slice_drop error 6 4]
  rw [corrupt_append hfront, corrupt_append (hfield c)]

/-- A burst inside one region makes the field and the sum disagree. -/
theorem burst_rejected {p : Packet} (hp : p.payload.length ≤ payloadMax) (m : PacketMem)
    {error : List UInt8} (hlength : error.length = (sendPacket p).length)
    (hburst : BurstWithin 32 error) {region : Region} (hregion : InRegion region error) :
    (recvPacket m (corrupt (sendPacket p) error)).1.scode = -1 := by
  obtain ⟨front, back, hfront, hback, hparts⟩ := corrupt_encode p hlength
  let sum := computeChecksum (p.encode 0)
  have hten : 10 ≤ error.length := by
    rw [hlength, sendPacket, encode_length, rtpHeaderSize]
    omega
  have hfield : (slice error 6 4).length = 4 := slice_length hten
  have hword : (toLE 4 sum.toNat).length = (slice error 6 4).length := by
    rw [toLE_length, hfield]
  have hreceived : corrupt (sendPacket p) error = _ := (hparts sum).2
  have hfit : (corrupt (sendPacket p) error).length ≤ rtpPacketSize := by
    rw [corrupt_length hlength.symm, sendPacket, encode_length, rtpPacketSize]
    omega
  have hbefore : (corrupt front (error.take 6)).length = 6 := by
    rw [corrupt_length hfront, hfront, List.length_take]
    omega
  have hcksm : (corrupt (toLE 4 sum.toNat) (slice error 6 4)).length = 4 := by
    rw [corrupt_length hword, toLE_length]
  rw [hreceived] at hfit ⊢
  obtain ⟨hread, hsummed⟩ := received_parts m hbefore hcksm hfit
  apply scode_of_checksum
  rw [hread, hsummed]
  by_cases hinside : region = .checksum
  · -- the sum is as it was, the field is not
    subst hinside
    have hbody : p.encode 0 = front ++ ([0, 0, 0, 0] ++ back) := (hparts 0).1
    rw [corrupt_zeros hfront (hregion.take_zeros (le_refl 6)),
      corrupt_zeros hback (hregion.drop_zeros (le_refl 10)), ← hbody]
    exact ofNat_ofLE_corrupt_ne sum hfield (hregion.set_field hburst.set)
  · -- the field is as it was, the sum is not
    have hfieldZero := hregion.field_zeros hinside
    have hzeros : [0, 0, 0, (0 : UInt8)].length = (slice error 6 4).length := hfield.symm
    have hcorrupted : corrupt (p.encode 0) error = corrupt front (error.take 6) ++
        (corrupt [0, 0, 0, 0] (slice error 6 4) ++ corrupt back (error.drop 10)) := (hparts 0).2
    rw [corrupt_zeros hzeros hfieldZero] at hcorrupted
    have hsum : UInt32.ofNat (ofLE (toLE 4 sum.toNat)) = sum := by
      have hlt := sum.toNat_lt
      rw [ofLE_toLE, Nat.mod_eq_of_lt (by omega), UInt32.ofNat_toNat]
    rw [corrupt_zeros hword hfieldZero, hsum, ← hcorrupted]
    apply computeChecksum_corrupt_ne
    · rw [encode_length, hlength, sendPacket, encode_length]
    · exact hburst

/-- Every bit is in a region. -/
theorem exists_region {size i : Nat} (hi : i < 8 * size) :
    ∃ region, InRegion region (oneBit size i) := by
  have hregion : ∀ region : Region, 8 * region.start ≤ i → i < 8 * region.stop size →
      InRegion region (oneBit size i) := by
    intro region hlow hhigh k hk
    rw [getElem?_bitsOf_oneBit hi] at hk
    rw [oneBit_length, hk]
    exact ⟨hlow, hhigh⟩
  by_cases hfront : i < 48
  · exact ⟨.front, hregion .front (Nat.zero_le i) hfront⟩
  · by_cases hback : i < 80
    · exact ⟨.checksum, hregion .checksum (not_lt.mp hfront) hback⟩
    · exact ⟨.back, hregion .back (not_lt.mp hback) hi⟩

/-- **Bursts are detected**: a datagram of `send_packet` in which up to 32
consecutive bits of one region have been corrupted is rejected, and so is one in
which a single bit has been flipped. -/
theorem corruption_detected {p : Packet} (hp : p.payload.length ≤ payloadMax) (m : PacketMem) :
    (∀ (region : Region) (error : List UInt8), error.length = (sendPacket p).length →
      BurstWithin 32 error → InRegion region error →
      (recvPacket m (corrupt (sendPacket p) error)).1.scode = -1) ∧
    (∀ i, i < 8 * (sendPacket p).length →
      (recvPacket m (flipBit (sendPacket p) i)).1.scode = -1) := by
  constructor
  · intro region error hlength hburst hregion
    exact burst_rejected hp m hlength hburst hregion
  · intro i hi
    have ⟨region, hregion⟩ := exists_region hi
    rw [flipBit_eq_corrupt]
    exact burst_rejected hp m (oneBit_length _ _) (oneBit_burst hi (by decide)) hregion

/-- The bits 4 to 35 of the sequence number and the length of an
acknowledgement, and its last bit. -/
theorem corruption_detected_ack :
    (recvPacket ⟨.replicate rtpPacketSize 0, by simp⟩
      (corrupt (sendPacket (controlPacket 1 rtpAck))
        [0xF0, 0xFF, 0xFF, 0xFF, 0x0F, 0, 0, 0, 0, 0, 0])).1.scode = -1 ∧
    (recvPacket ⟨.replicate rtpPacketSize 0, by simp⟩
      (flipBit (sendPacket (controlPacket 1 rtpAck)) 87)).1.scode = -1 := by
  have hlength : (sendPacket (controlPacket 1 rtpAck)).length = 11 := encode_length _ _
  have ⟨hburst, hflip⟩ := corruption_detected (p := controlPacket 1 rtpAck) (by decide)
    ⟨.replicate rtpPacketSize 0, by simp⟩
  have hset : ∀ i, (bitsOf [0xF0, 0xFF, 0xFF, 0xFF, 0x0F, 0, 0, 0, 0, 0, 0])[i]? = some true →
      4 ≤ i ∧ i < 36 := by
    intro i hi
    have ⟨hlt, _⟩ := List.getElem?_eq_some_iff.mp hi
    have hall : ∀ i < 88, (bitsOf [0xF0, 0xFF, 0xFF, 0xFF, 0x0F, 0, 0, 0, 0, 0, 0])[i]? =
        some true → 4 ≤ i ∧ i < 36 := by decide
    exact hall i hlt hi
  constructor
  · apply hburst .front _ (by rw [hlength]; rfl)
    · exact ⟨by decide, 4, hset⟩
    · intro i hi
      have ⟨hlow, hhigh⟩ := hset i hi
      exact ⟨Nat.zero_le i, lt_trans hhigh (by decide)⟩
  · apply hflip
    rw [hlength]
    decide

end NetLabs.Rtp
