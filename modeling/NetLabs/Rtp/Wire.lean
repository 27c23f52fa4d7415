import NetLabs.Lib.Bytes
import NetLabs.Rtp.Packet

/-!
# Datagrams

The bytes of `rtp_packet_t`, the checksum of `util.c`, and `send_packet` and
`recv_packet` of `rtp.c`.  The struct is packed and the host is little-endian.

`recv_packet` receives into a struct that the caller keeps from one call to the
next.  The bytes behind a short datagram are those of an earlier one, and a
datagram that is rejected has overwritten the struct all the same.

* `recvPacket_sendPacket`: a datagram of `send_packet` is accepted and read
  back as the packet it was made from.
* `flags_recvPacket`: what the flags byte of the struct is after a receive.
-/

namespace NetLabs.Rtp

open NetLabs.Lib

/-! ## The checksum -/

/-- One round of the table entry. -/
def crc32Round (r : UInt32) : UInt32 :=
  (if r &&& 1 ≠ 0 then (0 : UInt32) else 0xEDB88320) ^^^ (r >>> 1)

/-- `crc32_for_byte` -/
def crc32ForByte (r : UInt32) : UInt32 := crc32Round^[8] r ^^^ 0xFF000000

/-- `crc32` -/
def crc32 (data : List UInt8) (crc : UInt32) : UInt32 :=
  data.foldl (fun crc byte => crc32ForByte (crc.toUInt8 ^^^ byte).toUInt32 ^^^ (crc >>> 8)) crc

/-- `compute_checksum` -/
def computeChecksum (bytes : List UInt8) : UInt32 := crc32 bytes 0

/-! ## The packet struct -/

/-- `RTP_HEADER_SIZE` -/
def rtpHeaderSize : Nat := 11

/-- `sizeof(rtp_packet_t)` -/
def rtpPacketSize : Nat := rtpHeaderSize + payloadMax

/-- The memory of an `rtp_packet_t`. -/
structure PacketMem where
  bytes : List UInt8
  size_eq : bytes.length = rtpPacketSize

namespace PacketMem

variable (m : PacketMem)

/-- `rtp.seq_num` -/
def seqNum : UInt32 := .ofNat (ofLE (slice m.bytes 0 4))

/-- `rtp.length` -/
def length : Nat := ofLE (slice m.bytes 4 2)

/-- `rtp.checksum` -/
def checksum : UInt32 := .ofNat (ofLE (slice m.bytes 6 4))

/-- `rtp.flags` -/
def flags : UInt8 := .ofNat (ofLE (slice m.bytes 10 1))

/-- What the programs read out of the struct. -/
def packet : Packet where
  seqNum := m.seqNum
  flags := m.flags
  payload := slice m.bytes rtpHeaderSize m.length

/-- `recvfrom(fd, buf, sizeof(*buf), ...)` writes the datagram over the struct
and drops what does not fit. -/
def recvfrom (datagram : List UInt8) : PacketMem where
  bytes := splice m.bytes 0 (datagram.take rtpPacketSize)
  size_eq := by
    rw [splice_length, m.size_eq]
    rw [m.size_eq, Nat.zero_add]
    exact List.length_take_le _ _

/-- `buf->rtp.checksum = 0` -/
def clearChecksum : PacketMem where
  bytes := splice m.bytes 6 [0, 0, 0, 0]
  size_eq := by
    rw [splice_length, m.size_eq]
    rw [m.size_eq]
    decide

end PacketMem

/-! ## `send_packet` and `recv_packet` -/

/-- The struct with the given checksum, up to the end of the payload. -/
def Packet.encode (p : Packet) (checksum : UInt32) : List UInt8 :=
  toLE 4 p.seqNum.toNat ++ toLE 2 p.length ++ toLE 4 checksum.toNat ++ [p.flags] ++ p.payload

/-- The datagram of `send_packet`. -/
def sendPacket (p : Packet) : List UInt8 := p.encode (computeChecksum (p.encode 0))

/-- `recv_packet` for a datagram that has arrived: the outcome, and the struct
afterwards. -/
def recvPacket (m : PacketMem) (datagram : List UInt8) : Recv × PacketMem :=
  let size := min datagram.length rtpPacketSize
  let received := m.recvfrom datagram
  let cksm := received.checksum
  let buf := received.clearChecksum
  if cksm ≠ computeChecksum (buf.bytes.take size) then
    (.rejected buf.packet, buf)
  else if buf.length > payloadMax ∨ buf.length + rtpHeaderSize ≠ size then
    (.rejected buf.packet, buf)
  else
    (.ok buf.packet, buf)

/-- Whatever the outcome, the struct holds the datagram with its checksum
cleared, and the outcome shows the packet in the struct. -/
theorem recvPacket_cases (m : PacketMem) (datagram : List UInt8) :
    ∃ buf, buf = (m.recvfrom datagram).clearChecksum ∧ (recvPacket m datagram).2 = buf ∧
      ((recvPacket m datagram).1 = .rejected buf.packet ∨
        (recvPacket m datagram).1 = .ok buf.packet) := by
  refine ⟨_, rfl, ?_⟩
  unfold recvPacket
  simp only
  split
  · exact ⟨rfl, Or.inl rfl⟩
  · split
    · exact ⟨rfl, Or.inl rfl⟩
    · exact ⟨rfl, Or.inr rfl⟩

namespace PacketMem

theorem flags_eq (m : PacketMem) : m.flags = m.bytes.getD 10 0 := by
  have hlt : 10 < m.bytes.length := by
    rw [m.size_eq]
    decide
  have hslice : slice m.bytes 10 1 = [m.bytes[10]] := by
    rw [slice, List.drop_eq_getElem_cons hlt, List.take_succ_cons, List.take_zero]
  rw [flags, hslice, ofLE, ofLE, List.getD_eq_getElem?_getD, List.getElem?_eq_getElem hlt]
  simp

theorem flags_clearChecksum (m : PacketMem) : m.clearChecksum.flags = m.flags := by
  have hle : 6 + [0, 0, 0, (0 : UInt8)].length ≤ m.bytes.length := by
    rw [m.size_eq]
    decide
  rw [flags_eq, flags_eq, List.getD_eq_getElem?_getD, List.getD_eq_getElem?_getD]
  rw [clearChecksum, getElem?_splice hle, if_neg (by decide)]

theorem flags_recvfrom (m : PacketMem) (datagram : List UInt8) :
    (m.recvfrom datagram).flags = datagram.getD 10 m.flags := by
  have hle : 0 + (datagram.take rtpPacketSize).length ≤ m.bytes.length := by
    rw [m.size_eq, Nat.zero_add]
    exact List.length_take_le _ _
  have hsize : 10 < rtpPacketSize := by decide
  rw [flags_eq, List.getD_eq_getElem?_getD, List.getD_eq_getElem?_getD]
  rw [recvfrom, getElem?_splice hle, Nat.zero_add, List.length_take]
  by_cases hlong : 10 < datagram.length
  · rw [if_pos (by omega), Nat.sub_zero, List.getElem?_take_of_lt hsize,
      List.getElem?_eq_getElem hlong]
    rfl
  · rw [if_neg (by omega), List.getElem?_eq_none (by omega : datagram.length ≤ 10), flags_eq,
      List.getD_eq_getElem?_getD]
    rfl

end PacketMem

/-- The flags byte is the one of the datagram, or an old one when the datagram
ends before it. -/
theorem flags_recvPacket (m : PacketMem) (datagram : List UInt8) :
    (recvPacket m datagram).2.flags = datagram.getD 10 m.flags := by
  obtain ⟨buf, hbuf, hmem, _⟩ := recvPacket_cases m datagram
  rw [hmem, hbuf, PacketMem.flags_clearChecksum, PacketMem.flags_recvfrom]

/-! ## Round trip -/

theorem encode_length (p : Packet) (c : UInt32) :
    (p.encode c).length = rtpHeaderSize + p.payload.length := by
  simp [Packet.encode, rtpHeaderSize]
  omega

/-- A struct that starts with an encoded packet holds its fields. -/
theorem fields_of_encode {m : PacketMem} {p : Packet} {c : UInt32} {rest : List UInt8}
    (h : m.bytes = p.encode c ++ rest) (hp : p.payload.length ≤ payloadMax) :
    m.checksum = c ∧ m.length = p.payload.length ∧ m.packet = p := by
  have hbytes : m.bytes = toLE 4 p.seqNum.toNat ++ (toLE 2 p.length ++
      (toLE 4 c.toNat ++ ([p.flags] ++ (p.payload ++ rest)))) := by
    rw [h, Packet.encode]
    simp only [List.append_assoc]
  have hword : ∀ n : UInt32, UInt32.ofNat (ofLE (toLE 4 n.toNat)) = n := by
    intro n
    have hlt := UInt32.toNat_lt n
    rw [ofLE_toLE, Nat.mod_eq_of_lt (by omega), UInt32.ofNat_toNat]
  have hseq : m.seqNum = p.seqNum := by
    rw [PacketMem.seqNum, hbytes, slice_append (toLE_length 4 _), hword]
  have hlength : m.length = p.payload.length := by
    have hlt : p.payload.length < 256 ^ 2 := by
      unfold payloadMax at hp
      omega
    rw [PacketMem.length, hbytes, slice_append_right (by simp), toLE_length]
    rw [slice_append (toLE_length 2 _), ofLE_toLE, Packet.length, Nat.mod_eq_of_lt hlt]
  have hchecksum : m.checksum = c := by
    rw [PacketMem.checksum, hbytes, slice_append_right (by simp), toLE_length]
    rw [slice_append_right (by simp), toLE_length, slice_append (toLE_length 4 _), hword]
  have hflags : m.flags = p.flags := by
    rw [PacketMem.flags, hbytes, slice_append_right (by simp), toLE_length]
    rw [slice_append_right (by simp), toLE_length, slice_append_right (by simp), toLE_length]
    rw [slice_append (show [p.flags].length = 1 from rfl), ofLE, ofLE]
    simp
  have hpayload : slice m.bytes rtpHeaderSize m.length = p.payload := by
    rw [hlength, hbytes, rtpHeaderSize, slice_append_right (by simp), toLE_length]
    rw [slice_append_right (by simp), toLE_length, slice_append_right (by simp), toLE_length]
    rw [slice_append_right (by simp), List.length_singleton, slice_append rfl]
  refine ⟨hchecksum, hlength, ?_⟩
  rw [PacketMem.packet, hseq, hflags, hpayload]

/-- Clearing the checksum of an encoded packet. -/
theorem bytes_clearChecksum {m : PacketMem} {p : Packet} {c : UInt32} {rest : List UInt8}
    (h : m.bytes = p.encode c ++ rest) : m.clearChecksum.bytes = p.encode 0 ++ rest := by
  have hfront : (toLE 4 p.seqNum.toNat ++ toLE 2 p.length).length = 6 := by simp
  have hsplit : ∀ c : UInt32, p.encode c ++ rest =
      (toLE 4 p.seqNum.toNat ++ toLE 2 p.length) ++
        (toLE 4 c.toNat ++ ([p.flags] ++ (p.payload ++ rest))) := by
    intro c
    rw [Packet.encode]
    simp only [List.append_assoc]
  change splice m.bytes 6 [0, 0, 0, 0] = _
  rw [h, hsplit, hsplit, ← hfront, splice_append (toLE_length 4 _)]
  rfl

/-- A datagram of `send_packet` is accepted, whatever the struct held before,
and is read back as the packet it was made from. -/
theorem recvPacket_sendPacket (m : PacketMem) {p : Packet} (hp : p.payload.length ≤ payloadMax) :
    (recvPacket m (sendPacket p)).1 = .ok p := by
  have hlength : (sendPacket p).length = rtpHeaderSize + p.payload.length := encode_length _ _
  have hsize : (sendPacket p).length ≤ rtpPacketSize := by
    rw [hlength, rtpPacketSize]
    omega
  have hreceived : (m.recvfrom (sendPacket p)).bytes =
      p.encode (computeChecksum (p.encode 0)) ++ m.bytes.drop (sendPacket p).length := by
    change splice m.bytes 0 _ = _
    rw [List.take_of_length_le hsize, splice_zero]
    rfl
  have hcleared := bytes_clearChecksum hreceived
  obtain ⟨hchecksum, _⟩ := fields_of_encode hreceived hp
  obtain ⟨_, hfield, hpacket⟩ := fields_of_encode hcleared hp
  have hbody : (m.recvfrom (sendPacket p)).clearChecksum.bytes.take (sendPacket p).length =
      p.encode 0 := by
    rw [hcleared, hlength, ← encode_length p 0, List.take_left]
  unfold recvPacket
  simp only [Nat.min_eq_left hsize, hbody, hchecksum, hfield, hpacket]
  rw [if_neg (by simp), if_neg (by omega)]

end NetLabs.Rtp
