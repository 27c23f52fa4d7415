import NetLabs.Rtp.Wire

/-!
# Which datagrams are accepted

A datagram that `recv_packet` accepts is one that `send_packet` emits.  The
checksum and the length are read out of a struct that a short datagram only
partly overwrites, but the test of the length against the received size rejects
every datagram that ends before the payload begins.

* `encode_packet`: the struct in front of the payload's end is the packet in it,
  encoded.
* `recvPacket_eq_ok_iff` is the converse of `recvPacket_sendPacket`, for
  datagrams of any size and whatever the struct held before.
-/

namespace NetLabs.Rtp

open NetLabs.Lib

namespace PacketMem

theorem length_clearChecksum (m : PacketMem) : m.clearChecksum.length = m.length := by
  have hoffset : 6 ≤ m.bytes.length := by
    rw [m.size_eq]
    decide
  rw [length, clearChecksum, slice_splice (by decide) hoffset, length]

/-- The struct up to the end of the payload is the packet in it, encoded with the
checksum in it. -/
theorem encode_packet {m : PacketMem} (h : rtpHeaderSize + m.length ≤ rtpPacketSize) :
    m.packet.encode m.checksum = m.bytes.take (rtpHeaderSize + m.length) := by
  have hfield : ∀ offset width, offset + width ≤ rtpPacketSize →
      (slice m.bytes offset width).length = width := by
    intro offset width hle
    apply slice_length
    rw [m.size_eq]
    exact hle
  have hword : ∀ offset, offset + 4 ≤ rtpPacketSize →
      toLE 4 (UInt32.ofNat (ofLE (slice m.bytes offset 4))).toNat = slice m.bytes offset 4 := by
    intro offset hle
    have hwidth := hfield offset 4 hle
    have hlt := ofLE_lt (slice m.bytes offset 4)
    rw [hwidth] at hlt
    rw [UInt32.toNat_ofNat_of_lt' (by exact hlt), toLE_ofLE hwidth]
  have hlength : toLE 2 m.packet.length = slice m.bytes 4 2 := by
    have hpayload : m.packet.length = m.length := hfield rtpHeaderSize m.length h
    rw [hpayload, length, toLE_ofLE (hfield 4 2 (by decide))]
  have hflags : [m.flags] = slice m.bytes 10 1 := by
    obtain ⟨b, hb⟩ := List.length_eq_one_iff.mp (hfield 10 1 (by decide))
    rw [flags, hb, ofLE, ofLE]
    simp
  have hfront : m.bytes.take (rtpHeaderSize + m.length) =
      slice m.bytes 0 (4 + (2 + (4 + (1 + m.length)))) := by
    rw [slice, List.drop_zero, rtpHeaderSize]
    congr 1
    omega
  rw [hfront, slice_add, slice_add, slice_add, slice_add, Packet.encode, hlength]
  show toLE 4 m.seqNum.toNat ++ slice m.bytes 4 2 ++ toLE 4 m.checksum.toNat ++ [m.flags] ++
    slice m.bytes rtpHeaderSize m.length = _
  rw [seqNum, checksum, hword 0 (by decide), hword 6 (by decide), hflags]
  simp only [List.append_assoc]
  rfl

theorem bytes_recvfrom (m : PacketMem) (datagram : List UInt8) :
    (m.recvfrom datagram).bytes =
      datagram.take rtpPacketSize ++ m.bytes.drop (min datagram.length rtpPacketSize) := by
  show splice m.bytes 0 (datagram.take rtpPacketSize) = _
  rw [splice_zero, List.length_take, Nat.min_comm]

end PacketMem

/-! ## Accepted datagrams -/

/-- What the two tests of `recv_packet` have established when it returns 0. -/
theorem tests_of_recvPacket {m : PacketMem} {datagram : List UInt8} {p : Packet}
    (h : (recvPacket m datagram).1 = .ok p) :
    ∃ received, received = m.recvfrom datagram ∧
      received.checksum = computeChecksum
        (received.clearChecksum.bytes.take (min datagram.length rtpPacketSize)) ∧
      received.length ≤ payloadMax ∧
      received.length + rtpHeaderSize = min datagram.length rtpPacketSize ∧
      received.clearChecksum.packet = p := by
  refine ⟨_, rfl, ?_⟩
  rw [← PacketMem.length_clearChecksum]
  unfold recvPacket at h
  simp only at h
  by_cases hcksm : (m.recvfrom datagram).checksum = computeChecksum
      ((m.recvfrom datagram).clearChecksum.bytes.take (min datagram.length rtpPacketSize))
  · rw [if_neg (not_not.mpr hcksm)] at h
    by_cases hlength : (m.recvfrom datagram).clearChecksum.length > payloadMax ∨
        (m.recvfrom datagram).clearChecksum.length + rtpHeaderSize ≠
          min datagram.length rtpPacketSize
    · rw [if_pos hlength] at h
      cases h
    · rw [if_neg hlength] at h
      rw [not_or, not_lt, not_not] at hlength
      exact ⟨hcksm, hlength.1, hlength.2, Recv.ok.inj h⟩
  · rw [if_pos hcksm] at h
    cases h

/-- An accepted datagram is the one that `send_packet` emits for the fields that
were read. -/
theorem take_eq_sendPacket {m : PacketMem} {datagram : List UInt8} {p : Packet}
    (h : (recvPacket m datagram).1 = .ok p) :
    p.payload.length ≤ payloadMax ∧ datagram.take rtpPacketSize = sendPacket p := by
  obtain ⟨received, hreceived, hcksm, hmax, hsize, hpacket⟩ := tests_of_recvPacket h
  have hfit : rtpHeaderSize + received.length ≤ rtpPacketSize := by
    rw [rtpPacketSize]
    omega
  have hencode := PacketMem.encode_packet hfit
  have hpayload : received.packet.payload.length = received.length := by
    have hlength := congrArg List.length hencode
    rw [encode_length, List.length_take_of_le (by rw [received.size_eq]; exact hfit)] at hlength
    omega
  have hbytes : received.bytes = received.packet.encode received.checksum ++
      received.bytes.drop (rtpHeaderSize + received.length) := by
    rw [hencode, List.take_append_drop]
  have hcleared := bytes_clearChecksum hbytes
  have hread : received.packet = p := by
    rw [← hpacket]
    exact (fields_of_encode hcleared (by omega)).2.2.symm
  have hbody : received.clearChecksum.bytes.take (min datagram.length rtpPacketSize) =
      p.encode 0 := by
    rw [hcleared, ← hsize, Nat.add_comm, ← hpayload, ← encode_length _ 0, List.take_left, hread]
  have hwhole : received.bytes.take (min datagram.length rtpPacketSize) =
      datagram.take rtpPacketSize := by
    rw [hreceived, PacketMem.bytes_recvfrom, Nat.min_comm, ← List.length_take, List.take_left]
  rw [hbody] at hcksm
  rw [hread] at hencode hpayload
  refine ⟨by omega, ?_⟩
  rw [← hwhole, ← hsize, Nat.add_comm, ← hencode, hcksm]
  rfl

/-- A datagram is accepted exactly when it is one of `send_packet`.  The right
side does not mention the struct. -/
theorem recvPacket_eq_ok_iff {m : PacketMem} {datagram : List UInt8} {p : Packet} :
    (recvPacket m datagram).1 = .ok p ↔
      p.payload.length ≤ payloadMax ∧ datagram.take rtpPacketSize = sendPacket p := by
  constructor
  · exact take_eq_sendPacket
  · intro ⟨hmax, hsent⟩
    have hfit : (datagram.take rtpPacketSize).take rtpPacketSize = datagram.take rtpPacketSize := by
      rw [List.take_take, Nat.min_self]
    have hsize : min (datagram.take rtpPacketSize).length rtpPacketSize =
        min datagram.length rtpPacketSize := by
      rw [List.length_take]
      omega
    have hsame : recvPacket m datagram = recvPacket m (datagram.take rtpPacketSize) := by
      unfold recvPacket PacketMem.recvfrom
      simp only [hfit, hsize]
    rw [hsame, hsent]
    exact recvPacket_sendPacket m hmax

/-- The struct holds the packet that is accepted. -/
theorem recvPacket_eq_ok_of_scode {m : PacketMem} {datagram : List UInt8}
    (h : (recvPacket m datagram).1.scode = 0) :
    (recvPacket m datagram).1 = .ok (recvPacket m datagram).2.packet := by
  obtain ⟨buf, _, hmem, hrej | hok⟩ := recvPacket_cases m datagram
  · rw [hrej] at h
    cases h
  · rw [hok, hmem]

/-- What the struct held does not make a datagram acceptable. -/
theorem scode_eq_zero_of {m : PacketMem} {datagram : List UInt8} (m' : PacketMem)
    (h : (recvPacket m datagram).1.scode = 0) : (recvPacket m' datagram).1.scode = 0 := by
  have hok := recvPacket_eq_ok_iff.mp (recvPacket_eq_ok_of_scode h)
  rw [recvPacket_eq_ok_iff.mpr hok]
  rfl

theorem scode_eq_neg_one {m : PacketMem} {datagram : List UInt8}
    (h : (recvPacket m datagram).1.scode ≠ 0) : (recvPacket m datagram).1.scode = -1 := by
  obtain ⟨buf, _, _, hrej | hok⟩ := recvPacket_cases m datagram
  · rw [hrej]
    rfl
  · exact absurd (congrArg Recv.scode hok) h

/-- Whether a datagram is accepted does not depend on what the struct held. -/
theorem recvPacket_scode (m m' : PacketMem) (datagram : List UInt8) :
    (recvPacket m datagram).1.scode = (recvPacket m' datagram).1.scode := by
  by_cases hzero : (recvPacket m datagram).1.scode = 0
  · rw [hzero, scode_eq_zero_of m' hzero]
  · rw [scode_eq_neg_one hzero, scode_eq_neg_one (mt (scode_eq_zero_of m) hzero)]

/-- The struct after an accepted datagram. -/
theorem length_of_recvPacket {m : PacketMem} {datagram : List UInt8}
    (h : (recvPacket m datagram).1.scode = 0) :
    (recvPacket m datagram).2.length = (recvPacket m datagram).2.packet.length := by
  obtain ⟨received, hreceived, _, hmax, hsize, hpacket⟩ :=
    tests_of_recvPacket (recvPacket_eq_ok_of_scode h)
  obtain ⟨buf, hbuf, hmem, _⟩ := recvPacket_cases m datagram
  have hlength : buf.length = received.length := by
    rw [hbuf, hreceived, PacketMem.length_clearChecksum]
  have hfit : rtpHeaderSize + buf.length ≤ buf.bytes.length := by
    rw [buf.size_eq, hlength, rtpPacketSize]
    omega
  rw [hmem]
  show buf.length = (slice buf.bytes rtpHeaderSize buf.length).length
  rw [slice, List.length_take, List.length_drop]
  omega

/-- **Encoding and decoding are inverse on accepted datagrams.** -/
theorem packet_codec :
    (∀ (m : PacketMem) (p : Packet), p.payload.length ≤ payloadMax →
      (recvPacket m (sendPacket p)).1.scode = 0 ∧
      (recvPacket m (sendPacket p)).2.packet = p ∧
      (recvPacket m (sendPacket p)).2.length = p.length) ∧
    (∀ (m : PacketMem) (datagram : List UInt8), datagram.length ≤ rtpPacketSize →
      (recvPacket m datagram).1.scode = 0 →
      (recvPacket m datagram).2.packet.length ≤ payloadMax ∧
      (recvPacket m datagram).2.length = (recvPacket m datagram).2.packet.length ∧
      datagram = sendPacket (recvPacket m datagram).2.packet) ∧
    (∀ (m m' : PacketMem) (datagram : List UInt8),
      (recvPacket m datagram).1.scode = (recvPacket m' datagram).1.scode) := by
  refine ⟨?_, ?_, recvPacket_scode⟩
  · intro m p hmax
    have hok := recvPacket_sendPacket m hmax
    have hscode : (recvPacket m (sendPacket p)).1.scode = 0 := by
      rw [hok]
      rfl
    have hpacket : (recvPacket m (sendPacket p)).2.packet = p := by
      rw [recvPacket_eq_ok_of_scode hscode] at hok
      exact Recv.ok.inj hok
    refine ⟨hscode, hpacket, ?_⟩
    rw [length_of_recvPacket hscode, hpacket]
  · intro m datagram hfit hscode
    have ⟨hmax, hsent⟩ := take_eq_sendPacket (recvPacket_eq_ok_of_scode hscode)
    rw [List.take_of_length_le hfit] at hsent
    exact ⟨hmax, length_of_recvPacket hscode, hsent⟩

end NetLabs.Rtp
