import NetLabs.Ftp.Post

/-!
# Framing

However `send` and `recv` cut the byte stream into pieces, `recv_post` returns
the posts that `send_post` was given.

* `ssendFrom_eq` and `srecvFrom_eq` are the loop invariants: what is left of
  the buffer goes out, what is missing comes in.
* `sendPost_eq` and `recvPost_eq` say that one call writes, and one call
  consumes, the bytes of exactly one post.
-/

namespace NetLabs.Ftp

open Lib

variable {c : Calls}

theorem sizeT_natCast {n : Nat} (h : n < 2 ^ 32) : sizeT n = n := by
  have hlt : (n : Int) % 2 ^ 64 = n := Int.emod_eq_of_lt (by omega) (by omega)
  rw [sizeT, hlt, Int.toNat_natCast]

theorem toInt_natCast {n : Nat} (h : n < 2 ^ 31) : toInt n = n := by
  rw [toInt, Int.bmod_eq_of_le] <;> omega

/-! ## The two loops -/

/-- The loop of `ssend` sends what is left of the first `size` bytes. -/
theorem ssendFrom_eq (hc : c.Transfers) (buf : List UInt8) (size ret : Nat) (out : Outgoing)
    (hret : ret ≤ size) :
    ∃ calls, ssendFrom c buf size ret out =
      (toInt size, ⟨out.sent ++ slice buf ret (size - ret), calls⟩) := by
  fun_induction ssendFrom c buf size ret out with
  | case1 ret out hlt b hzero =>
    have hpos : 0 < b := hc out.calls (size - ret) (by omega)
    omega
  | case2 ret out hlt b hzero hneg =>
    have hpos : 0 < b := hc out.calls (size - ret) (by omega)
    omega
  | case3 ret out hlt b hzero hneg ih =>
    have hle : b ≤ ((size - ret : Nat) : Int) := c.le_request out.calls (size - ret)
    have hsplit : size - ret = b.toNat + (size - (ret + b.toNat)) := by omega
    have ⟨calls, heq⟩ := ih (by omega)
    exact ⟨calls, by rw [heq, hsplit, slice_add, List.append_assoc]⟩
  | case4 ret out hge =>
    have heq : ret = size := by omega
    subst heq
    exact ⟨out.calls, by simp [slice]⟩

/-- The loop of `srecv` reads what is missing, when that much is unread. -/
theorem srecvFrom_eq (hc : c.Transfers) (size : Nat) (got : List UInt8) (inc : Incoming)
    (hgot : got.length ≤ size) (hunread : size - got.length ≤ inc.unread.length) :
    ∃ calls, srecvFrom c size got inc =
      some (toInt size, got ++ inc.unread.take (size - got.length),
        ⟨inc.unread.drop (size - got.length), calls⟩) := by
  fun_induction srecvFrom c size got inc with
  | case1 got inc hlt b hzero =>
    have hpos : 0 < b := hc inc.calls (size - got.length) (by omega)
    omega
  | case2 got inc hlt b hzero hneg =>
    have hpos : 0 < b := hc inc.calls (size - got.length) (by omega)
    omega
  | case3 got inc hlt b hzero hneg hempty =>
    rw [hempty, List.length_nil] at hunread
    omega
  | case4 got inc hlt b hzero hneg hempty ih =>
    have hle : b ≤ ((size - got.length : Nat) : Int) := c.le_request inc.calls _
    have hlength : (got ++ inc.unread.take b.toNat).length = got.length + b.toNat := by
      rw [List.length_append, List.length_take]
      omega
    rw [hlength, List.length_drop] at ih
    have hsplit : size - got.length = b.toNat + (size - (got.length + b.toNat)) := by omega
    have ⟨calls, heq⟩ := ih (by omega) (by omega)
    exact ⟨calls, by rw [heq, hsplit, List.take_add, List.append_assoc, List.drop_drop]⟩
  | case5 got inc hge =>
    have heq : got.length = size := by omega
    subst heq
    exact ⟨inc.calls, by simp⟩

theorem ssend_eq (hc : c.Transfers) (buf : List UInt8) (out : Outgoing)
    (hsize : buf.length < 2 ^ 31) :
    ∃ calls, ssend c buf buf.length out = ((buf.length : Int), ⟨out.sent ++ buf, calls⟩) := by
  have ⟨calls, heq⟩ := ssendFrom_eq hc buf buf.length 0 out (Nat.zero_le _)
  refine ⟨calls, ?_⟩
  rw [ssend, sizeT_natCast (by omega), heq, toInt_natCast hsize]
  simp [slice]

/-- `srecv` reads exactly the first `size` bytes. -/
theorem srecv_eq (hc : c.Transfers) (bytes rest : List UInt8) (k : Nat)
    (hsize : bytes.length < 2 ^ 31) :
    ∃ calls, srecv c bytes.length ⟨bytes ++ rest, k⟩ =
      some ((bytes.length : Int), bytes, ⟨rest, calls⟩) := by
  have ⟨calls, heq⟩ := srecvFrom_eq hc bytes.length [] ⟨bytes ++ rest, k⟩
    (Nat.zero_le _) (by simp)
  refine ⟨calls, ?_⟩
  rw [srecv, sizeT_natCast (by omega), heq, toInt_natCast hsize]
  simp

/-! ## One post -/

namespace Post

/-- The payload fits the buffer of the receiver. -/
def Fits (p : Post) : Prop := p.payload.length ≤ maxbuf

theorem Fits.lt {p : Post} (h : p.Fits) : headerSize + p.payload.length < 2 ^ 31 := by
  have hmax : p.payload.length ≤ 2097152 := h
  have hheader : headerSize = 12 := rfl
  omega

theorem header_length {p : Post} (h : p.Fits) :
    p.header.length = headerSize + p.payload.length :=
  Nat.mod_eq_of_lt (by have := h.lt; omega)

theorem header_bytes_length (p : Post) : p.header.bytes.length = headerSize :=
  FtpHeader.bytes_length rfl

theorem ofBytes_header (p : Post) : FtpHeader.ofBytes p.header.bytes = p.header :=
  FtpHeader.ofBytes_bytes rfl (Nat.mod_lt _ (by decide))

end Post

/-- `send_post` writes the bytes of the post and returns its payload's size. -/
theorem sendPost_eq (hc : c.Transfers) {p : Post} (hp : p.Fits) (out : Outgoing) :
    ∃ calls, sendPost c out p = ((p.payload.length : Int), ⟨out.sent ++ p.bytes, calls⟩) := by
  have hlt := hp.lt
  have hheader := p.header_bytes_length
  have ⟨k, hfirst⟩ := ssend_eq hc p.header.bytes out (by rw [hheader]; decide)
  have ⟨calls, hsecond⟩ := ssend_eq hc p.payload ⟨out.sent ++ p.header.bytes, k⟩ (by omega)
  refine ⟨calls, ?_⟩
  rw [hheader] at hfirst
  have hscode : ¬ (headerSize : Int) ≤ 0 := by decide
  simp only [sendPost, hfirst, if_neg hscode, hsecond, Post.bytes, List.append_assoc]

/-- `recv_post` returns the post at the front of the stream and consumes its
bytes only. -/
theorem recvPost_eq (hc : c.Transfers) {p : Post} (hp : p.Fits) (old : Post)
    (rest : List UInt8) (k : Nat) :
    ∃ calls, recvPost c old ⟨p.bytes ++ rest, k⟩ =
      some ((p.payload.length : Int), p, ⟨rest, calls⟩) := by
  have hlt := hp.lt
  have hheader := p.header_bytes_length
  have ⟨k', hfirst⟩ := srecv_eq hc p.header.bytes (p.payload ++ rest) k (by rw [hheader]; decide)
  have ⟨calls, hsecond⟩ := srecv_eq hc p.payload rest k' (by omega)
  refine ⟨calls, ?_⟩
  rw [hheader] at hfirst
  have hscode : ¬ (headerSize : Int) ≤ 0 := by decide
  have hlength : toInt (p.header.length - headerSize) = p.payload.length := by
    rw [Post.header_length hp, Nat.cast_add, add_sub_cancel_left, toInt_natCast (by omega)]
  rw [recvPost, Post.bytes, List.append_assoc, hfirst]
  simp only [Option.bind_eq_bind, Option.bind_some, if_neg hscode, Post.ofBytes_header,
    hlength, hsecond]
  rfl

/-! ## Sequences of posts -/

theorem sendPosts_eq (hc : c.Transfers) {posts : List Post} (hfit : ∀ p ∈ posts, p.Fits)
    (out : Outgoing) :
    ∃ calls, sendPosts c out posts =
      (posts.map fun p => (p.payload.length : Int),
        ⟨out.sent ++ posts.flatMap Post.bytes, calls⟩) := by
  induction posts generalizing out with
  | nil => exact ⟨out.calls, by simp [sendPosts]⟩
  | cons p posts ih =>
    have ⟨k, hp⟩ := sendPost_eq hc (hfit p List.mem_cons_self) out
    have ⟨calls, hposts⟩ := ih (fun q hq => hfit q (List.mem_cons_of_mem _ hq))
      ⟨out.sent ++ p.bytes, k⟩
    refine ⟨calls, ?_⟩
    simp only [sendPosts, hp, hposts, List.map_cons, List.flatMap_cons, List.append_assoc]

theorem recvPosts_eq (hc : c.Transfers) {posts : List Post} (hfit : ∀ p ∈ posts, p.Fits)
    (old : Post) (rest : List UInt8) (k : Nat) :
    ∃ calls, recvPosts c posts.length old ⟨posts.flatMap Post.bytes ++ rest, k⟩ =
      some (posts.map fun p => ((p.payload.length : Int), p), ⟨rest, calls⟩) := by
  induction posts generalizing old k with
  | nil => exact ⟨k, rfl⟩
  | cons p posts ih =>
    have ⟨k', hp⟩ := recvPost_eq hc (hfit p List.mem_cons_self) old
      (posts.flatMap Post.bytes ++ rest) k
    have ⟨calls, hposts⟩ := ih (fun q hq => hfit q (List.mem_cons_of_mem _ hq)) p k'
    refine ⟨calls, ?_⟩
    rw [List.flatMap_cons, List.append_assoc, List.length_cons, recvPosts, hp]
    show (recvPosts c posts.length p _).bind _ = _
    rw [hposts]
    rfl

/-- **Framing round trip**: for every sequence of posts and every fragmentation
on both ends, the sends return the payload sizes, and the first `i` receives
return the first `i` posts and leave the bytes of the others unread. -/
theorem framing_round_trip {sends recvs : Calls} (hsends : sends.Transfers)
    (hrecvs : recvs.Transfers) (posts : List Post) (hfit : ∀ p ∈ posts, p.Fits) (old : Post) :
    (sendPosts sends ⟨[], 0⟩ posts).1 = posts.map (fun p => (p.payload.length : Int)) ∧
    ∀ i ≤ posts.length, ∃ calls,
      recvPosts recvs i old ⟨(sendPosts sends ⟨[], 0⟩ posts).2.sent, 0⟩ =
        some ((posts.take i).map fun p => ((p.payload.length : Int), p),
          ⟨(sendPosts sends ⟨[], 0⟩ (posts.drop i)).2.sent, calls⟩) := by
  have ⟨k, hsent⟩ := sendPosts_eq hsends hfit ⟨[], 0⟩
  constructor
  · rw [hsent]
  · intro i hi
    have htake : ∀ p ∈ posts.take i, p.Fits := fun p hp => hfit p (List.mem_of_mem_take hp)
    have hdrop : ∀ p ∈ posts.drop i, p.Fits := fun p hp => hfit p (List.mem_of_mem_drop hp)
    have ⟨k', hrest⟩ := sendPosts_eq hsends hdrop ⟨[], 0⟩
    have ⟨calls, hrecv⟩ := recvPosts_eq hrecvs htake old ((posts.drop i).flatMap Post.bytes) 0
    refine ⟨calls, ?_⟩
    rw [List.length_take_of_le hi, ← List.flatMap_append, List.take_append_drop] at hrecv
    rw [hsent, hrest]
    exact hrecv

/-- Every call transfers one byte. -/
def oneByteCalls : Calls where
  result _ n := min 1 n
  le_request _ _ := min_le_right _ _

/-- Every call transfers all it is asked for. -/
def wholeCalls : Calls where
  result _ n := n
  le_request _ _ := le_refl _

/-- A `cd a` request and an empty file, sent bytewise. -/
theorem framing_round_trip_oneByte :
    (sendPosts oneByteCalls ⟨[], 0⟩ [⟨0xA5, 0, [0x61, 0]⟩, ⟨0xFF, 1, []⟩]).1 = [2, 0] ∧
    ∀ i ≤ 2, ∃ calls,
      recvPosts wholeCalls i ⟨0, 0, []⟩
          ⟨(sendPosts oneByteCalls ⟨[], 0⟩ [⟨0xA5, 0, [0x61, 0]⟩, ⟨0xFF, 1, []⟩]).2.sent, 0⟩ =
        some (([⟨0xA5, 0, [0x61, 0]⟩, ⟨0xFF, 1, []⟩].take i).map
            fun p => ((p.payload.length : Int), p),
          ⟨(sendPosts oneByteCalls ⟨[], 0⟩
            ([⟨0xA5, 0, [0x61, 0]⟩, ⟨0xFF, 1, []⟩].drop i)).2.sent, calls⟩) :=
  framing_round_trip (fun _ n hn => lt_min one_pos (Int.natCast_pos.mpr hn))
    (fun _ _ hn => Int.natCast_pos.mpr hn) [⟨0xA5, 0, [0x61, 0]⟩, ⟨0xFF, 1, []⟩]
    (by simp [Post.Fits, maxbuf]) ⟨0, 0, []⟩

end NetLabs.Ftp
