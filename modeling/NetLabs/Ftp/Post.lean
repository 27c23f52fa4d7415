import NetLabs.Lib.Bytes

/-!
# Posts of the FTP lab

A post is one message on a connection: a 12-byte header (the six magic bytes,
type, status and length in network order) and a payload.

* `Calls` holds what the successive `send` or `recv` calls return.  A call may
  transfer fewer bytes than it is asked for, so `ssend` and `srecv` loop.
* `sendPost` and `recvPost` follow `send_post` and `recv_post`, with the
  conversions between `int`, `size_t` and `uint32_t` written out.
-/

namespace NetLabs.Ftp

open Lib

/-! ## Types of posts -/

def openRequest : UInt8 := 0xA1
def openReply : UInt8 := 0xA2
def listRequest : UInt8 := 0xA3
def listReply : UInt8 := 0xA4
def cdRequest : UInt8 := 0xA5
def cdReply : UInt8 := 0xA6
def getRequest : UInt8 := 0xA7
def getReply : UInt8 := 0xA8
def putRequest : UInt8 := 0xA9
def putReply : UInt8 := 0xAA
def shaRequest : UInt8 := 0xAB
def shaReply : UInt8 := 0xAC
def quitRequest : UInt8 := 0xAD
def quitReply : UInt8 := 0xAE
def fileData : UInt8 := 0xFF

/-! ## The header -/

/-- `c1 a1 10 f t p`. -/
def magicNumber : List UInt8 := [0xc1, 0xa1, 0x10, 0x66, 0x74, 0x70]

/-- `sizeof(ftp_header)`; the struct is packed. -/
def headerSize : Nat := 12

def maxbuf : Nat := 1 <<< 21

structure FtpHeader where
  protocol : List UInt8
  type : UInt8
  status : UInt8
  /-- The value of `m_length` in host order, a `uint32_t`. -/
  length : Nat
  deriving DecidableEq, Repr

/-- The constructor `ftp_header(type_, length_, status_)`. -/
def FtpHeader.make (type : UInt8) (length : Nat) (status : UInt8) : FtpHeader :=
  ⟨magicNumber, type, status, length⟩

/-- The header in memory; `htonl` stores the length in network order. -/
def FtpHeader.bytes (h : FtpHeader) : List UInt8 :=
  h.protocol ++ ([h.type] ++ ([h.status] ++ toBE 4 h.length))

/-- The header that twelve bytes of memory hold. -/
def FtpHeader.ofBytes (bytes : List UInt8) : FtpHeader where
  protocol := slice bytes 0 6
  type := bytes.getD 6 0
  status := bytes.getD 7 0
  length := ofBE (slice bytes 8 4)

theorem FtpHeader.bytes_length {h : FtpHeader} (hprotocol : h.protocol.length = 6) :
    h.bytes.length = headerSize := by
  simp only [bytes, List.length_append, toBE_length, List.length_singleton, hprotocol]
  rfl

/-- A header is read back from its own bytes. -/
theorem FtpHeader.ofBytes_bytes {h : FtpHeader} (hprotocol : h.protocol.length = 6)
    (hlength : h.length < 2 ^ 32) : ofBytes h.bytes = h := by
  have hproto : slice h.bytes 0 6 = h.protocol := slice_append hprotocol
  have htype : h.bytes.getD 6 0 = h.type := by
    simp [bytes, List.getD_eq_getElem?_getD, hprotocol]
  have hstatus : h.bytes.getD 7 0 = h.status := by
    simp [bytes, List.getD_eq_getElem?_getD, hprotocol]
  have hfield : slice h.bytes 8 4 = toBE 4 h.length := by
    rw [bytes, slice_append_right (by omega), slice_append_right (by simp [hprotocol]),
      slice_append_right (by simp [hprotocol]), hprotocol]
    have htail : slice (toBE 4 h.length ++ []) 0 4 = toBE 4 h.length :=
      slice_append (toBE_length 4 h.length)
    rw [List.append_nil] at htail
    exact htail
  have hvalue : ofBE (toBE 4 h.length) = h.length := by
    rw [ofBE_toBE]
    exact Nat.mod_eq_of_lt (by omega)
  rw [ofBytes, hproto, htype, hstatus, hfield, hvalue]

/-- Twelve bytes are the bytes of the header that they hold. -/
theorem FtpHeader.bytes_ofBytes {bytes : List UInt8} (h : bytes.length = headerSize) :
    (ofBytes bytes).bytes = bytes := by
  have hsize : bytes.length = 12 := h
  have hbyte : ∀ i, i < 12 → [bytes.getD i 0] = slice bytes i 1 := by
    intro i hi
    rw [slice, List.drop_eq_getElem_cons (by omega : i < bytes.length), List.take_succ_cons,
      List.take_zero, List.getD_eq_getElem?_getD, List.getElem?_eq_getElem (by omega)]
    rfl
  have hlength : (slice bytes 8 4).length = 4 := by
    rw [slice, List.length_take, List.length_drop]
    omega
  have hwhole : slice bytes 0 (6 + (1 + (1 + 4))) = bytes := by
    rw [slice, List.drop_zero]
    exact List.take_of_length_le (by omega)
  rw [FtpHeader.bytes, ofBytes, hbyte 6 (by decide), hbyte 7 (by decide), toBE_ofBE hlength]
  conv_rhs => rw [← hwhole, slice_add, slice_add, slice_add]

/-- The length field is a `uint32_t`. -/
theorem FtpHeader.length_ofBytes_lt (bytes : List UInt8) : (ofBytes bytes).length < 2 ^ 32 := by
  have hlt := ofBE_lt (slice bytes 8 4)
  have hwidth : (slice bytes 8 4).length ≤ 4 := List.length_take_le _ _
  exact lt_of_lt_of_le hlt (Nat.pow_le_pow_right (by decide) hwidth)

/-! ## `ssend` and `srecv` -/

/-- What the successive `send` (or `recv`) calls on a connection return:
`result k n` for the `k`-th call, asked for `n` bytes.  A positive result is
a number of bytes, `0` is a closed connection, a negative one is an error. -/
structure Calls where
  result : Nat → Nat → Int
  le_request : ∀ k n, result k n ≤ n

/-- No call fails: each one transfers some bytes. -/
def Calls.Transfers (c : Calls) : Prop := ∀ k n, 0 < n → 0 < c.result k n

/-- The sending end: the bytes sent so far and the number of calls made. -/
structure Outgoing where
  sent : List UInt8
  calls : Nat
  deriving DecidableEq, Repr

/-- The receiving end: the bytes not read yet and the number of calls made. -/
structure Incoming where
  unread : List UInt8
  calls : Nat
  deriving DecidableEq, Repr

/-- An `int` read as a `size_t`, as in `ret < size`. -/
def sizeT (size : Int) : Nat := (size % 2 ^ 64).toNat

/-- A value converted to `int`. -/
def toInt (n : Int) : Int := n.bmod (2 ^ 32)

/-- The loop of `ssend` with `ret` bytes sent. -/
def ssendFrom (c : Calls) (buf : List UInt8) (size ret : Nat) (out : Outgoing) :
    Int × Outgoing :=
  if ret < size then
    let b := c.result out.calls (size - ret)
    if b = 0 then (-1, { out with calls := out.calls + 1 })
    else if b < 0 then (-1, { out with calls := out.calls + 1 })
    else ssendFrom c buf size (ret + b.toNat) ⟨out.sent ++ slice buf ret b.toNat, out.calls + 1⟩
  else (toInt ret, out)
termination_by size - ret

def ssend (c : Calls) (buf : List UInt8) (size : Int) (out : Outgoing) : Int × Outgoing :=
  ssendFrom c buf (sizeT size) 0 out

/-- The loop of `srecv`; `got` is what it has stored in the buffer, so its
length is `ret`.  `none` when `recv` blocks because nothing is unread. -/
def srecvFrom (c : Calls) (size : Nat) (got : List UInt8) (inc : Incoming) :
    Option (Int × List UInt8 × Incoming) :=
  if got.length < size then
    let b := c.result inc.calls (size - got.length)
    if b = 0 then some (-1, got, { inc with calls := inc.calls + 1 })
    else if b < 0 then some (-1, got, { inc with calls := inc.calls + 1 })
    else if inc.unread = [] then none
    else srecvFrom c size (got ++ inc.unread.take b.toNat)
      ⟨inc.unread.drop b.toNat, inc.calls + 1⟩
  else some (toInt got.length, got, inc)
termination_by size - got.length
decreasing_by
  rename_i hlt hzero hneg hunread
  have hpos := List.length_pos_iff.mpr hunread
  simp only [List.length_append, List.length_take]
  omega

def srecv (c : Calls) (size : Int) (inc : Incoming) : Option (Int × List UInt8 × Incoming) :=
  srecvFrom c (sizeT size) [] inc

/-! ## `send_post` and `recv_post` -/

structure Post where
  type : UInt8
  status : UInt8
  payload : List UInt8
  deriving DecidableEq, Repr

/-- The header that `send_post` builds; the length is cut to a `uint32_t`. -/
def Post.header (p : Post) : FtpHeader :=
  .make p.type ((headerSize + p.payload.length) % 2 ^ 32) p.status

/-- The bytes of a post on the connection. -/
def Post.bytes (p : Post) : List UInt8 := p.header.bytes ++ p.payload

def sendPost (c : Calls) (out : Outgoing) (p : Post) : Int × Outgoing :=
  let (scode, out) := ssend c p.header.bytes headerSize out
  if scode ≤ 0 then (scode, out) else ssend c p.payload p.payload.length out

/-- `old` is what `*ptype`, `*pstatus` and the buffer hold before the call; they
keep it when no header arrives.  The buffer is given by what the call stores. -/
def recvPost (c : Calls) (old : Post) (inc : Incoming) : Option (Int × Post × Incoming) := do
  let (scode, bytes, inc) ← srecv c headerSize inc
  if scode ≤ 0 then return (scode, old, inc)
  let header := FtpHeader.ofBytes bytes
  let length := toInt (header.length - headerSize)
  let (size, buf, inc) ← srecv c length inc
  return (size, ⟨header.type, header.status, buf⟩, inc)

/-- Successive `send_post` calls and their results. -/
def sendPosts (c : Calls) (out : Outgoing) : List Post → List Int × Outgoing
  | [] => ([], out)
  | p :: ps =>
    let (size, out) := sendPost c out p
    let (sizes, out) := sendPosts c out ps
    (size :: sizes, out)

/-- Successive `recv_post` calls and their results. -/
def recvPosts (c : Calls) : Nat → Post → Incoming → Option (List (Int × Post) × Incoming)
  | 0, _, inc => some ([], inc)
  | n + 1, old, inc => do
    let (size, p, inc) ← recvPost c old inc
    let (rest, inc) ← recvPosts c n p inc
    return ((size, p) :: rest, inc)

end NetLabs.Ftp
