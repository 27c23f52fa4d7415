import NetLabs.Ftp.Framing

/-!
# The front of a connection

`arrived` says what `recv_post` finds in the bytes that have arrived: a whole
post, an unfinished one, or one that is longer than the buffer.

* `recvPost_of_post` and `recvPost_of_unfinished` are what `recv_post` makes of
  it: it returns the post, or it waits.
* `arrived_append`: what arrives later does not change a whole post.
-/

namespace NetLabs.Ftp

open Lib

inductive Arrival where
  | post (p : Post) (rest : List UInt8)
  | unfinished
  /-- More bytes of the payload have arrived than fit the buffer. -/
  | overrun
  deriving DecidableEq, Repr

/-- The header that the first bytes hold. -/
def frontHeader (unread : List UInt8) : FtpHeader := .ofBytes (unread.take headerSize)

/-- The number of bytes that `recv_post` reads behind the header. -/
def frontSize (unread : List UInt8) : Nat :=
  sizeT (toInt ((frontHeader unread).length - headerSize))

/-- What `recv_post` finds in the bytes that have arrived, with a buffer of
`MAXBUF` bytes. -/
def arrived (unread : List UInt8) : Arrival :=
  let header := frontHeader unread
  let buf := unread.drop headerSize
  let size := frontSize unread
  if unread.length < headerSize then .unfinished
  else if maxbuf < size then
    if maxbuf < buf.length then .overrun else .unfinished
  else if buf.length < size then .unfinished
  else .post ⟨header.type, header.status, buf.take size⟩ (buf.drop size)

variable {unread rest : List UInt8} {p : Post}

/-- A whole post: its header and its payload are there and fit the buffer. -/
theorem arrived_post_iff :
    arrived unread = .post p rest ↔
      headerSize + frontSize unread ≤ unread.length ∧ frontSize unread ≤ maxbuf ∧
        p = ⟨(frontHeader unread).type, (frontHeader unread).status,
          (unread.drop headerSize).take (frontSize unread)⟩ ∧
        rest = (unread.drop headerSize).drop (frontSize unread) := by
  simp only [arrived, List.length_drop]
  split_ifs with hheader hsize hover hbuf
  · exact ⟨nofun, fun h => by omega⟩
  · exact ⟨nofun, fun h => by omega⟩
  · exact ⟨nofun, fun h => by omega⟩
  · exact ⟨nofun, fun h => by omega⟩
  · constructor
    · rintro ⟨⟩
      exact ⟨by omega, by omega, rfl, rfl⟩
    · rintro ⟨_, _, rfl, rfl⟩
      rfl

/-- An unfinished post: the header or a part of the payload is missing. -/
theorem lt_of_unfinished (h : arrived unread = .unfinished) :
    unread.length < headerSize + frontSize unread := by
  simp only [arrived, List.length_drop] at h
  split_ifs at h with hheader hsize hover hbuf
  · omega
  · omega
  · omega

theorem frontHeader_append (h : headerSize ≤ unread.length) (more : List UInt8) :
    frontHeader (unread ++ more) = frontHeader unread := by
  rw [frontHeader, List.take_append_of_le_length h, frontHeader]

theorem frontSize_append (h : headerSize ≤ unread.length) (more : List UInt8) :
    frontSize (unread ++ more) = frontSize unread := by
  rw [frontSize, frontHeader_append h, frontSize]

/-- What arrives behind a whole post does not change it. -/
theorem arrived_append (h : arrived unread = .post p rest) (more : List UInt8) :
    arrived (unread ++ more) = .post p (rest ++ more) := by
  have ⟨hlength, hsize, hp, hrest⟩ := arrived_post_iff.mp h
  have hheader : headerSize ≤ unread.length := by omega
  have hbuf : frontSize unread ≤ (unread.drop headerSize).length := by
    rw [List.length_drop]
    omega
  rw [arrived_post_iff, frontSize_append hheader, frontHeader_append hheader,
    List.drop_append_of_le_length hheader, List.take_append_of_le_length hbuf,
    List.drop_append_of_le_length hbuf, List.length_append]
  exact ⟨by omega, hsize, hp, by rw [hrest]⟩

theorem not_arrived_nil : arrived [] = .unfinished := by
  decide

/-- The bytes that `send_post` writes arrive as the post. -/
theorem arrived_bytes (hp : p.Fits) (rest : List UInt8) :
    arrived (p.bytes ++ rest) = .post p rest := by
  have hlength := p.header_bytes_length
  have htake : (p.bytes ++ rest).take headerSize = p.header.bytes := by
    rw [Post.bytes, List.append_assoc, ← hlength, List.take_left]
  have hdrop : (p.bytes ++ rest).drop headerSize = p.payload ++ rest := by
    rw [Post.bytes, List.append_assoc, ← hlength, List.drop_left]
  have hheader : frontHeader (p.bytes ++ rest) = p.header := by
    rw [frontHeader, htake, Post.ofBytes_header]
  have hlt := hp.lt
  have hsize : frontSize (p.bytes ++ rest) = p.payload.length := by
    rw [frontSize, hheader, Post.header_length hp, Nat.cast_add, add_sub_cancel_left,
      toInt_natCast (by omega), sizeT_natCast (by omega)]
  rw [arrived_post_iff, hsize, hheader, hdrop, List.take_left, List.drop_left]
  refine ⟨?_, hp, rfl, rfl⟩
  rw [Post.bytes, List.length_append, List.length_append, hlength]
  omega

/-- The post has arrived, and nothing else. -/
theorem arrived_alone (hp : p.Fits) : arrived p.bytes = .post p [] := by
  have harrived := arrived_bytes hp []
  rwa [List.append_nil] at harrived

/-! ## What `recv_post` does -/

section Receiving

variable {c : Calls}

/-- The loop of `srecv` waits while a byte is missing. -/
theorem srecvFrom_none (hc : c.Transfers) (size : Nat) (got : List UInt8) (inc : Incoming)
    (hmissing : inc.unread.length < size - got.length) :
    srecvFrom c size got inc = none := by
  fun_induction srecvFrom c size got inc with
  | case1 got inc hlt b hzero =>
    have hpos : 0 < b := hc inc.calls (size - got.length) (by omega)
    omega
  | case2 got inc hlt b hzero hneg =>
    have hpos : 0 < b := hc inc.calls (size - got.length) (by omega)
    omega
  | case3 => rfl
  | case4 got inc hlt b hzero hneg hempty ih =>
    apply ih
    simp only [List.length_append, List.length_take, List.length_drop]
    omega
  | case5 got inc hge => omega

/-- A size that fits the buffer is not negative as an `int`. -/
theorem eq_of_sizeT_le {n : Nat} {z : Int} (h : sizeT (toInt z) = n) (hn : n ≤ maxbuf) :
    toInt z = n := by
  have hbound : maxbuf = 2097152 := rfl
  have hlow : -(2 ^ 31 : Int) ≤ toInt z := by
    have hle := Int.le_bmod (x := z) (show 0 < 2 ^ 32 by decide)
    exact hle
  have hhigh : toInt z < 2 ^ 31 := by
    have hlt := Int.bmod_lt (x := z) (show 0 < 2 ^ 32 by decide)
    exact hlt
  rw [sizeT] at h
  omega

/-- `srecv` reads the front of what has arrived. -/
theorem srecv_front (hc : c.Transfers) {n : Nat} (hn : n ≤ unread.length) (hint : n < 2 ^ 31)
    (k : Nat) :
    ∃ calls, srecv c n ⟨unread, k⟩ = some ((n : Int), unread.take n, ⟨unread.drop n, calls⟩) := by
  have hlength : (unread.take n).length = n := List.length_take_of_le hn
  have hsrecv := srecv_eq hc (unread.take n) (unread.drop n) k (by omega)
  rw [hlength, List.take_append_drop] at hsrecv
  exact hsrecv

/-- `recv_post` returns a whole post. -/
theorem recvPost_of_post (hc : c.Transfers) (h : arrived unread = .post p rest) (old : Post)
    (k : Nat) :
    ∃ calls, recvPost c old ⟨unread, k⟩ = some ((p.payload.length : Int), p, ⟨rest, calls⟩) := by
  have ⟨hlength, hsize, hp, hrest⟩ := arrived_post_iff.mp h
  have ⟨k', hfirst⟩ := srecv_front hc (by omega : headerSize ≤ unread.length) (by decide) k
  have hbound : maxbuf = 2097152 := rfl
  have hbuf : frontSize unread ≤ (unread.drop headerSize).length := by
    rw [List.length_drop]
    omega
  have ⟨calls, hsecond⟩ := srecv_front hc hbuf (by omega) k'
  have hint : toInt ((frontHeader unread).length - headerSize) = frontSize unread :=
    eq_of_sizeT_le rfl hsize
  have hscode : ¬ (headerSize : Int) ≤ 0 := by decide
  refine ⟨calls, ?_⟩
  rw [recvPost, hfirst]
  simp only [Option.bind_eq_bind, Option.bind_some, if_neg hscode]
  rw [← frontHeader, hint, hsecond, hp, hrest]
  simp only [Option.bind_some, Option.pure_def, List.length_take, Nat.min_eq_left hbuf]

/-- `recv_post` waits for the rest of an unfinished post. -/
theorem recvPost_of_unfinished (hc : c.Transfers) (h : arrived unread = .unfinished) (old : Post)
    (k : Nat) : recvPost c old ⟨unread, k⟩ = none := by
  have hlt := lt_of_unfinished h
  by_cases hheader : headerSize ≤ unread.length
  · have ⟨k', hfirst⟩ := srecv_front hc hheader (by decide) k
    have hscode : ¬ (headerSize : Int) ≤ 0 := by decide
    have hmissing : srecv c (toInt ((frontHeader unread).length - headerSize))
        ⟨unread.drop headerSize, k'⟩ = none := by
      refine srecvFrom_none hc _ [] _ ?_
      show (unread.drop headerSize).length < frontSize unread - 0
      rw [List.length_drop]
      omega
    rw [recvPost, hfirst]
    simp only [Option.bind_eq_bind, Option.bind_some, if_neg hscode]
    rw [← frontHeader, hmissing]
    rfl
  · have hmissing : srecv c headerSize ⟨unread, k⟩ = none := by
      refine srecvFrom_none hc _ [] _ ?_
      show unread.length < headerSize - 0
      omega
    rw [recvPost, hmissing]
    rfl

end Receiving

end NetLabs.Ftp
