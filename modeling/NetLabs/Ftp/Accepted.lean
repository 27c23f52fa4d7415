import NetLabs.Ftp.Arrival

/-!
# What `recv_post` accepts

`recv_post` reads a header and then as many bytes as the length field announces.
It compares neither the magic bytes nor the length with anything, and the length
goes through a `size_t` and an `int` before it bounds the loop of `srecv`.

* `Reading` are the states that the loop of `srecv` goes through.  It ends with
  all bytes (`Delivered`), by a call that fails (`Breaks`), or not (`Blocks`).
* `acceptsOnlyPosts_iff` says when `recv_post` accepts nothing but posts.
* `payloadFits_iff` says when the payload fits the buffer.
-/

namespace NetLabs.Ftp

open Lib

/-! ## The loop of `srecv` -/

section Reading

variable (c : Calls) (size : Nat) (inc : Incoming)

/-- The loop of `srecv`, entered with `size` bytes to read from `inc`, comes to
its head with `got` in the buffer. -/
inductive Reading : List UInt8 → Incoming → Prop where
  | start : Reading [] inc
  | call {got : List UInt8} {now : Incoming} (h : Reading got now) (hlt : got.length < size)
      (hpos : 0 < c.result now.calls (size - got.length)) (hunread : now.unread ≠ []) :
      Reading (got ++ now.unread.take (c.result now.calls (size - got.length)).toNat)
        ⟨now.unread.drop (c.result now.calls (size - got.length)).toNat, now.calls + 1⟩

/-- All bytes arrive. -/
def Delivered (got : List UInt8) (now : Incoming) : Prop :=
  Reading c size inc got now ∧ got.length = size

/-- A call fails, or finds the connection closed, while a byte is missing. -/
def Breaks : Prop :=
  ∃ got now, Reading c size inc got now ∧ got.length < size ∧
    c.result now.calls (size - got.length) ≤ 0

/-- A call waits for a byte that does not come. -/
def Blocks : Prop :=
  ∃ got now, Reading c size inc got now ∧ got.length < size ∧
    0 < c.result now.calls (size - got.length) ∧ now.unread = []

variable {c size inc} {got : List UInt8} {now : Incoming}

/-- What is in the buffer comes from the front of the stream. -/
theorem Reading.unread (h : Reading c size inc got now) : inc.unread = got ++ now.unread := by
  induction h with
  | start => rfl
  | call h hlt hpos hunread ih => rw [ih, List.append_assoc, List.take_append_drop]

theorem Reading.length_le (h : Reading c size inc got now) : got.length ≤ size := by
  induction h with
  | start => exact Nat.zero_le _
  | @call got now h hlt hpos hunread ih =>
    have hle := c.le_request now.calls (size - got.length)
    rw [List.length_append, List.length_take]
    omega

/-- The loop goes on from every state that it reaches. -/
theorem Reading.srecvFrom_eq (h : Reading c size inc got now) :
    srecvFrom c size [] inc = srecvFrom c size got now := by
  induction h with
  | start => rfl
  | @call got now h hlt hpos hunread ih =>
    rw [ih, srecvFrom]
    simp only [if_pos hlt]
    rw [if_neg (by omega), if_neg (by omega), if_neg hunread]

theorem srecvFrom_of_delivered (h : Delivered c size inc got now) :
    srecvFrom c size [] inc = some (toInt size, got, now) := by
  have ⟨hreading, hlength⟩ := h
  rw [hreading.srecvFrom_eq, srecvFrom, if_neg (by omega), hlength]

theorem srecvFrom_of_breaks (h : Breaks c size inc) :
    ∃ got now, Reading c size inc got now ∧
      srecvFrom c size [] inc = some (-1, got, { now with calls := now.calls + 1 }) := by
  obtain ⟨got, now, hreading, hlt, hfail⟩ := h
  refine ⟨got, now, hreading, ?_⟩
  rw [hreading.srecvFrom_eq, srecvFrom]
  simp only [if_pos hlt]
  by_cases hzero : c.result now.calls (size - got.length) = 0
  · rw [if_pos hzero]
  · rw [if_neg hzero, if_pos (by omega)]

theorem srecvFrom_of_blocks (h : Blocks c size inc) : srecvFrom c size [] inc = none := by
  obtain ⟨got, now, hreading, hlt, hpos, hempty⟩ := h
  rw [hreading.srecvFrom_eq, srecvFrom]
  simp only [if_pos hlt]
  rw [if_neg (by omega), if_neg (by omega), if_pos hempty]

/-- The loop goes one of the three ways. -/
theorem Reading.cases (h : Reading c size inc got now) :
    (∃ got now, Delivered c size inc got now) ∨ Breaks c size inc ∨ Blocks c size inc := by
  fun_induction srecvFrom c size got now with
  | case1 got now hlt b hzero => exact .inr (.inl ⟨got, now, h, hlt, le_of_eq hzero⟩)
  | case2 got now hlt b hzero hneg => exact .inr (.inl ⟨got, now, h, hlt, le_of_lt hneg⟩)
  | case3 got now hlt b hzero hneg hempty =>
    have hpos : 0 < b := by omega
    exact .inr (.inr ⟨got, now, h, hlt, hpos, hempty⟩)
  | case4 got now hlt b hzero hneg hunread ih =>
    have hpos : 0 < b := by omega
    exact ih (h.call hlt hpos hunread)
  | case5 got now hge =>
    have hle := h.length_le
    exact .inl ⟨got, now, h, by omega⟩

theorem reading_cases (c : Calls) (size : Nat) (inc : Incoming) :
    (∃ got now, Delivered c size inc got now) ∨ Breaks c size inc ∨ Blocks c size inc :=
  Reading.cases .start

/-- What the loop has stored when it returns. -/
theorem length_le_of_srecvFrom {r : Int} {later : Incoming}
    (h : srecvFrom c size [] inc = some (r, got, later)) : got.length ≤ size := by
  rcases reading_cases c size inc with ⟨got', now, hdelivered⟩ | hbreaks | hblocks
  · rw [srecvFrom_of_delivered hdelivered] at h
    have hgot : got' = got := congrArg (·.2.1) (Option.some.inj h)
    rw [← hgot]
    exact le_of_eq hdelivered.2
  · obtain ⟨got', now, hreading, heq⟩ := srecvFrom_of_breaks hbreaks
    rw [heq] at h
    cases h
    exact hreading.length_le
  · rw [srecvFrom_of_blocks hblocks] at h
    cases h

end Reading

/-! ## The second call of `srecv` -/

/-- `length`: the `int` with which `recv_post` reads the payload. -/
def FtpHeader.payloadLength (h : FtpHeader) : Int := toInt (h.length - headerSize)

/-- What `recv_post` enters `srecv` with a second time: the length, and the
connection at that point. -/
def payloadRead (c : Calls) (inc : Incoming) : Option (Int × Incoming) := do
  let (scode, bytes, inc) ← srecv c headerSize inc
  if scode ≤ 0 then none else some ((FtpHeader.ofBytes bytes).payloadLength, inc)

section Header

variable {c : Calls} {inc now : Incoming} {got : List UInt8}

/-- A header arrives, and `recv_post` goes on to the payload. -/
theorem srecv_header (h : Delivered c headerSize inc got now) :
    srecv c headerSize inc = some (12, got, now) := by
  have hsize : sizeT headerSize = headerSize := rfl
  rw [srecv, hsize, srecvFrom_of_delivered h]
  rfl

theorem recvPost_of_delivered (h : Delivered c headerSize inc got now) (old : Post) :
    recvPost c old inc = (srecvFrom c (sizeT (FtpHeader.ofBytes got).payloadLength) [] now).map
      fun r => (r.1, ⟨(FtpHeader.ofBytes got).type, (FtpHeader.ofBytes got).status, r.2.1⟩, r.2.2) := by
  rw [recvPost, srecv_header h]
  simp only [Option.bind_eq_bind, Option.bind_some]
  rw [if_neg (by decide)]
  show (srecv c (FtpHeader.ofBytes got).payloadLength now).bind _ = _
  rw [srecv, Option.map_eq_bind]
  rfl

/-- The payload arrives. -/
theorem recvPost_of_payload (h : Delivered c headerSize inc got now) {payload : List UInt8}
    {later : Incoming}
    (hall : Delivered c (sizeT (FtpHeader.ofBytes got).payloadLength) now payload later)
    (old : Post) :
    recvPost c old inc = some (toInt (sizeT (FtpHeader.ofBytes got).payloadLength),
      ⟨(FtpHeader.ofBytes got).type, (FtpHeader.ofBytes got).status, payload⟩, later) := by
  rw [recvPost_of_delivered h, srecvFrom_of_delivered hall, Option.map_some]

/-- The connection fails within the payload. -/
theorem recvPost_of_breaks (h : Delivered c headerSize inc got now)
    (hbreaks : Breaks c (sizeT (FtpHeader.ofBytes got).payloadLength) now) (old : Post) :
    ∃ p later, recvPost c old inc = some (-1, p, later) := by
  obtain ⟨payload, later, _, heq⟩ := srecvFrom_of_breaks hbreaks
  refine ⟨⟨(FtpHeader.ofBytes got).type, (FtpHeader.ofBytes got).status, payload⟩,
    { later with calls := later.calls + 1 }, ?_⟩
  rw [recvPost_of_delivered h, heq, Option.map_some]

/-- Not all of the payload arrives. -/
theorem recvPost_of_blocks (h : Delivered c headerSize inc got now)
    (hblocks : Blocks c (sizeT (FtpHeader.ofBytes got).payloadLength) now) (old : Post) :
    recvPost c old inc = none := by
  rw [recvPost_of_delivered h, srecvFrom_of_blocks hblocks, Option.map_none]

theorem payloadRead_of_delivered (h : Delivered c headerSize inc got now) :
    payloadRead c inc = some ((FtpHeader.ofBytes got).payloadLength, now) := by
  rw [payloadRead, srecv_header h]
  rfl

/-- Without a header the first `srecv` fails or waits. -/
theorem srecv_of_no_header (h : ∀ got now, ¬ Delivered c headerSize inc got now) :
    (∃ got now, srecv c headerSize inc = some (-1, got, now)) ∨ srecv c headerSize inc = none := by
  have hsize : sizeT headerSize = headerSize := rfl
  rw [srecv, hsize]
  rcases reading_cases c headerSize inc with ⟨got, now, hdelivered⟩ | hbreaks | hblocks
  · exact absurd hdelivered (h got now)
  · obtain ⟨got, now, _, heq⟩ := srecvFrom_of_breaks hbreaks
    exact .inl ⟨got, { now with calls := now.calls + 1 }, heq⟩
  · exact .inr (srecvFrom_of_blocks hblocks)

/-- Without a header `recv_post` fails or waits. -/
theorem recvPost_of_no_header (h : ∀ got now, ¬ Delivered c headerSize inc got now) (old : Post) :
    (∃ now, recvPost c old inc = some (-1, old, now)) ∨ recvPost c old inc = none := by
  rcases srecv_of_no_header h with ⟨got, now, heq⟩ | hwaits
  · left
    refine ⟨now, ?_⟩
    rw [recvPost, heq]
    rfl
  · right
    rw [recvPost, hwaits]
    rfl

theorem payloadRead_of_no_header (h : ∀ got now, ¬ Delivered c headerSize inc got now) :
    payloadRead c inc = none := by
  rcases srecv_of_no_header h with ⟨got, now, heq⟩ | hwaits
  · rw [payloadRead, heq]
    rfl
  · rw [payloadRead, hwaits]
    rfl

end Header

/-! ## Lengths -/

theorem payloadLength_eq_of_nonneg {bytes : List UInt8}
    (h : 0 ≤ (FtpHeader.ofBytes bytes).payloadLength) :
    headerSize ≤ (FtpHeader.ofBytes bytes).length ∧
      (FtpHeader.ofBytes bytes).payloadLength = (FtpHeader.ofBytes bytes).length - headerSize ∧
      (FtpHeader.ofBytes bytes).length < 2 ^ 31 + headerSize := by
  have hlt := FtpHeader.length_ofBytes_lt bytes
  have hheader : headerSize = 12 := rfl
  rw [FtpHeader.payloadLength, toInt] at h ⊢
  rw [Int.bmod_def] at h ⊢
  omega

/-- A length that fits the buffer once `srecv` has made a `size_t` of it. -/
theorem sizeT_payloadLength_le_iff (bytes : List UInt8) :
    sizeT (FtpHeader.ofBytes bytes).payloadLength ≤ maxbuf ↔
      headerSize ≤ (FtpHeader.ofBytes bytes).length ∧
        (FtpHeader.ofBytes bytes).length ≤ headerSize + maxbuf := by
  have hlt := FtpHeader.length_ofBytes_lt bytes
  have hheader : headerSize = 12 := rfl
  have hmax : maxbuf = 2097152 := rfl
  rw [FtpHeader.payloadLength, toInt, sizeT, Int.bmod_def]
  omega

/-- The value that `srecv` returns has the sign of the `int` that it was given. -/
theorem toInt_sizeT_neg_iff (h : FtpHeader) :
    toInt (sizeT h.payloadLength) < 0 ↔ h.payloadLength < 0 := by
  rw [FtpHeader.payloadLength, toInt, toInt, sizeT, Int.bmod_def, Int.bmod_def]
  omega

/-! ## The payload and the buffer -/

/-- With a buffer of `MAXBUF` bytes: the loop of the second `srecv` is bounded by
the buffer, stores no more than that while it runs, and leaves no more than
that. -/
structure PayloadFits (c : Calls) (inc : Incoming) : Prop where
  entered : ∀ length now, payloadRead c inc = some (length, now) → sizeT length ≤ maxbuf
  running : ∀ length now, payloadRead c inc = some (length, now) →
    ∀ got later, Reading c (sizeT length) now got later → got.length ≤ maxbuf
  returned : ∀ old size p later, recvPost c old inc = some (size, p, later) →
    p = old ∨ p.payload.length ≤ maxbuf

theorem payloadFits_of_delivered {c : Calls} {inc now : Incoming} {got : List UInt8}
    (h : Delivered c headerSize inc got now)
    (hle : sizeT (FtpHeader.ofBytes got).payloadLength ≤ maxbuf) : PayloadFits c inc := by
  have hread := payloadRead_of_delivered h
  refine ⟨?_, ?_, ?_⟩
  · intro length later heq
    rw [hread] at heq
    cases heq
    exact hle
  · intro length later heq got' now' hreading
    rw [hread] at heq
    cases heq
    exact le_trans hreading.length_le hle
  · intro old size p later heq
    rw [recvPost_of_delivered h] at heq
    obtain ⟨⟨r, got', later'⟩, hstored, hreturned⟩ := Option.map_eq_some_iff.mp heq
    cases hreturned
    exact .inr (le_trans (length_le_of_srecvFrom hstored) hle)

/-- Without a header nothing is stored. -/
theorem payloadFits_of_no_header {c : Calls} {inc : Incoming}
    (h : ∀ got now, ¬ Delivered c headerSize inc got now) : PayloadFits c inc := by
  have hread := payloadRead_of_no_header h
  refine ⟨?_, ?_, ?_⟩
  · intro length later heq
    rw [hread] at heq
    cases heq
  · intro length later heq
    rw [hread] at heq
    cases heq
  · intro old size p later heq
    rcases recvPost_of_no_header h old with ⟨now, hfailed⟩ | hblocked
    · rw [hfailed] at heq
      cases heq
      exact .inl rfl
    · rw [hblocked] at heq
      cases heq

/-- **Received payloads and the buffer.**  The payload fits exactly when no header
arrives, or one whose length field is at least the size of the header and at most
`MAXBUF` more. -/
theorem payloadFits_iff (c : Calls) (inc : Incoming) :
    PayloadFits c inc ↔ ∀ got now, Delivered c headerSize inc got now →
      headerSize ≤ (FtpHeader.ofBytes got).length ∧
        (FtpHeader.ofBytes got).length ≤ headerSize + maxbuf := by
  constructor
  · intro hfits got now hdelivered
    rw [← sizeT_payloadLength_le_iff]
    exact hfits.entered _ _ (payloadRead_of_delivered hdelivered)
  · intro hlength
    by_cases hheader : ∃ got now, Delivered c headerSize inc got now
    · obtain ⟨got, now, hdelivered⟩ := hheader
      have hle := (sizeT_payloadLength_le_iff got).mpr (hlength got now hdelivered)
      exact payloadFits_of_delivered hdelivered hle
    · exact payloadFits_of_no_header fun got now hdelivered => hheader ⟨got, now, hdelivered⟩

/-- A `FILE_DATA` header that announces one byte more than `MAXBUF`, and one with
length zero. -/
theorem payload_overruns :
    (∃ now, payloadRead wholeCalls
        ⟨magicNumber ++ [fileData, 0, 0x00, 0x20, 0x00, 0x0D], 0⟩ = some ((maxbuf : Int) + 1, now)) ∧
    (∃ now, payloadRead wholeCalls ⟨magicNumber ++ [fileData, 0, 0, 0, 0, 0], 0⟩ =
      some (-12, now)) ∧ sizeT (-12) = 2 ^ 64 - 12 ∧
    ¬ PayloadFits wholeCalls ⟨magicNumber ++ [fileData, 0, 0x00, 0x20, 0x00, 0x0D], 0⟩ := by
  have hwhole : wholeCalls.Transfers := fun _ n hn => Int.natCast_pos.mpr hn
  have hread : ∀ header : List UInt8, header.length = headerSize → ∃ now,
      payloadRead wholeCalls ⟨header, 0⟩ = some ((FtpHeader.ofBytes header).payloadLength, now) := by
    intro header hlength
    have ⟨calls, hsrecv⟩ := srecv_front hwhole (le_of_eq hlength.symm) (by decide) 0
    refine ⟨⟨header.drop headerSize, calls⟩, ?_⟩
    rw [payloadRead, hsrecv, List.take_of_length_le (le_of_eq hlength)]
    rfl
  have ⟨now, hlong⟩ := hread (magicNumber ++ [fileData, 0, 0x00, 0x20, 0x00, 0x0D]) rfl
  have ⟨now', hshort⟩ := hread (magicNumber ++ [fileData, 0, 0, 0, 0, 0]) rfl
  refine ⟨⟨now, hlong⟩, ⟨now', hshort⟩, rfl, ?_⟩
  intro hfits
  have hle := hfits.entered _ _ hlong
  revert hle
  decide

/-! ## Posts only -/

/-- `recv_post` accepts nothing but the bytes of a post, and a header with other
magic bytes or with a length below its own size is an error. -/
structure AcceptsOnlyPosts (c : Calls) (old : Post) (inc : Incoming) : Prop where
  accepts : ∀ size p later, recvPost c old inc = some (size, p, later) → 0 ≤ size →
    inc.unread = p.bytes ++ later.unread ∧ (frontHeader inc.unread).protocol = magicNumber ∧
      (frontHeader inc.unread).length = headerSize + p.payload.length
  rejects : ∀ got now, Delivered c headerSize inc got now →
    (FtpHeader.ofBytes got).protocol ≠ magicNumber ∨ (FtpHeader.ofBytes got).length < headerSize →
    ∃ size p later, recvPost c old inc = some (size, p, later) ∧ size < 0

/-- The magic bytes are right and the length is possible. -/
def FtpHeader.WellFormed (h : FtpHeader) : Prop :=
  h.protocol = magicNumber ∧ headerSize ≤ h.length

/-- The payload that a header announces is not read with success: the connection
fails before all of it has arrived, or the length is negative as an `int` and a
`size_t` full of bytes does arrive. -/
def PayloadFails (c : Calls) (h : FtpHeader) (now : Incoming) : Prop :=
  Breaks c (sizeT h.payloadLength) now ∨
    h.payloadLength < 0 ∧ ∃ got later, Delivered c (sizeT h.payloadLength) now got later

section Accepting

variable {c : Calls} {inc now : Incoming} {got : List UInt8}

/-- After the header `recv_post` returns a negative value exactly when the payload
is not read with success. -/
theorem payloadFails_iff (hdelivered : Delivered c headerSize inc got now) (old : Post) :
    PayloadFails c (.ofBytes got) now ↔
      ∃ size p later, recvPost c old inc = some (size, p, later) ∧ size < 0 := by
  have hsign := toInt_sizeT_neg_iff (FtpHeader.ofBytes got)
  constructor
  · intro hfails
    rcases hfails with hbreaks | ⟨hneg, payload, later, hall⟩
    · obtain ⟨p, later, hpost⟩ := recvPost_of_breaks hdelivered hbreaks old
      exact ⟨-1, p, later, hpost, by decide⟩
    · exact ⟨_, _, _, recvPost_of_payload hdelivered hall old, hsign.mpr hneg⟩
  · intro ⟨size, p, later, hpost, hneg⟩
    rcases reading_cases c (sizeT (FtpHeader.ofBytes got).payloadLength) now with
      ⟨payload, later', hall⟩ | hbreaks | hblocks
    · rw [recvPost_of_payload hdelivered hall] at hpost
      have ⟨hsize, _⟩ := Prod.mk.inj (Option.some.inj hpost)
      rw [← hsize, hsign] at hneg
      exact .inr ⟨hneg, payload, later', hall⟩
    · exact .inl hbreaks
    · rw [recvPost_of_blocks hdelivered hblocks] at hpost
      cases hpost

/-- What a non-negative result means. -/
theorem delivered_of_recvPost {old p : Post} {size : Int} {later : Incoming}
    (hpost : recvPost c old inc = some (size, p, later)) (hsize : 0 ≤ size) :
    ∃ got now payload, Delivered c headerSize inc got now ∧
      0 ≤ (FtpHeader.ofBytes got).payloadLength ∧
      Delivered c (sizeT (FtpHeader.ofBytes got).payloadLength) now payload later ∧
      p = ⟨(FtpHeader.ofBytes got).type, (FtpHeader.ofBytes got).status, payload⟩ := by
  by_cases hheader : ∃ got now, Delivered c headerSize inc got now
  · obtain ⟨got, now, hdelivered⟩ := hheader
    rcases reading_cases c (sizeT (FtpHeader.ofBytes got).payloadLength) now with
      ⟨payload, later', hall⟩ | hbreaks | hblocks
    · rw [recvPost_of_payload hdelivered hall] at hpost
      have ⟨hvalue, hrest⟩ := Prod.mk.inj (Option.some.inj hpost)
      have ⟨hp, hlater⟩ := Prod.mk.inj hrest
      have hnonneg : 0 ≤ (FtpHeader.ofBytes got).payloadLength := by
        rw [← not_lt, ← toInt_sizeT_neg_iff, hvalue, not_lt]
        exact hsize
      rw [← hlater]
      exact ⟨got, now, payload, hdelivered, hnonneg, hall, hp.symm⟩
    · obtain ⟨p', later', hfailed⟩ := recvPost_of_breaks hdelivered hbreaks old
      rw [hfailed] at hpost
      have ⟨hvalue, _⟩ := Prod.mk.inj (Option.some.inj hpost)
      omega
    · rw [recvPost_of_blocks hdelivered hblocks] at hpost
      cases hpost
  · have hnone : ∀ got now, ¬ Delivered c headerSize inc got now :=
      fun got now hdelivered => hheader ⟨got, now, hdelivered⟩
    rcases recvPost_of_no_header hnone old with ⟨now, hfailed⟩ | hblocked
    · rw [hfailed] at hpost
      have ⟨hvalue, _⟩ := Prod.mk.inj (Option.some.inj hpost)
      omega
    · rw [hblocked] at hpost
      cases hpost

/-- A header with the magic bytes and its payload are the bytes of a post. -/
theorem bytes_of_header {payload : List UInt8} (hgot : got.length = headerSize)
    (hprotocol : (FtpHeader.ofBytes got).protocol = magicNumber)
    (hlength : (FtpHeader.ofBytes got).length = headerSize + payload.length) :
    Post.bytes ⟨(FtpHeader.ofBytes got).type, (FtpHeader.ofBytes got).status, payload⟩ =
      got ++ payload := by
  have hlt := FtpHeader.length_ofBytes_lt got
  have hheader : Post.header
      ⟨(FtpHeader.ofBytes got).type, (FtpHeader.ofBytes got).status, payload⟩ =
      FtpHeader.ofBytes got := by
    rw [Post.header, FtpHeader.make, ← hlength, Nat.mod_eq_of_lt hlt, ← hprotocol]
  rw [Post.bytes, hheader, FtpHeader.bytes_ofBytes hgot]

/-- Behind the magic bytes nothing but a post is accepted. -/
theorem post_of_recvPost {old p : Post} {size : Int} {later : Incoming}
    (hpost : recvPost c old inc = some (size, p, later)) (hsize : 0 ≤ size)
    (hmagic : ∀ got now, Delivered c headerSize inc got now →
      (FtpHeader.ofBytes got).protocol = magicNumber) :
    inc.unread = p.bytes ++ later.unread ∧ (frontHeader inc.unread).protocol = magicNumber ∧
      (frontHeader inc.unread).length = headerSize + p.payload.length := by
  obtain ⟨got, now, payload, hdelivered, hnonneg, hall, hp⟩ := delivered_of_recvPost hpost hsize
  have ⟨hlow, hint, hhigh⟩ := payloadLength_eq_of_nonneg hnonneg
  have hprotocol := hmagic got now hdelivered
  have hfront : frontHeader inc.unread = FtpHeader.ofBytes got := by
    rw [frontHeader, hdelivered.1.unread, ← hdelivered.2, List.take_left]
  have hlength : (FtpHeader.ofBytes got).length = headerSize + payload.length := by
    have hsize := hall.2
    rw [hint, ← Nat.cast_sub hlow, sizeT_natCast (by omega)] at hsize
    omega
  rw [hfront, hp, bytes_of_header hdelivered.2 hprotocol hlength, List.append_assoc,
    ← hall.1.unread, ← hdelivered.1.unread]
  exact ⟨rfl, hprotocol, hlength⟩

end Accepting

/-- **Accepted messages.**  `recv_post` accepts nothing but posts exactly when no
header arrives, or a well-formed one, or one whose payload is not read with
success. -/
theorem acceptsOnlyPosts_iff (c : Calls) (old : Post) (inc : Incoming) :
    AcceptsOnlyPosts c old inc ↔ ∀ got now, Delivered c headerSize inc got now →
      (FtpHeader.ofBytes got).WellFormed ∨ PayloadFails c (.ofBytes got) now := by
  constructor
  · intro honly got now hdelivered
    by_cases hwell : (FtpHeader.ofBytes got).WellFormed
    · exact .inl hwell
    · right
      rw [payloadFails_iff hdelivered old]
      apply honly.rejects got now hdelivered
      rw [FtpHeader.WellFormed, not_and_or, not_le] at hwell
      exact hwell
  · intro hheader
    refine ⟨?_, ?_⟩
    · intro size p later hpost hsize
      apply post_of_recvPost hpost hsize
      intro got now hdelivered
      rcases hheader got now hdelivered with hwell | hfails
      · exact hwell.1
      · obtain ⟨size', p', later', hpost', hneg⟩ := (payloadFails_iff hdelivered old).mp hfails
        rw [hpost] at hpost'
        cases hpost'
        omega
    · intro got now hdelivered hbad
      rw [← payloadFails_iff hdelivered old]
      rcases hheader got now hdelivered with hwell | hfails
      · rcases hbad with hmagic | hshort
        · exact absurd hwell.1 hmagic
        · exact absurd hwell.2 (not_le.mpr hshort)
      · exact hfails

/-- Six zero bytes instead of the magic ones: the header is accepted as an
`OPEN_REQUEST`. -/
theorem zeroMagic_accepted :
    (∃ calls, recvPost wholeCalls ⟨0, 0, []⟩
        ⟨[0, 0, 0, 0, 0, 0, openRequest, 0, 0, 0, 0, 12], 0⟩ =
      some (0, ⟨openRequest, 0, []⟩, ⟨[], calls⟩)) ∧
    ¬ AcceptsOnlyPosts wholeCalls ⟨0, 0, []⟩
      ⟨[0, 0, 0, 0, 0, 0, openRequest, 0, 0, 0, 0, 12], 0⟩ := by
  have hwhole : wholeCalls.Transfers := fun _ n hn => Int.natCast_pos.mpr hn
  have harrived : arrived [0, 0, 0, 0, 0, 0, openRequest, 0, 0, 0, 0, 12] =
      .post ⟨openRequest, 0, []⟩ [] := by decide
  have hpost := recvPost_of_post hwhole harrived ⟨0, 0, []⟩ 0
  refine ⟨hpost, ?_⟩
  intro honly
  obtain ⟨calls, heq⟩ := hpost
  have ⟨_, hmagic, _⟩ := honly.accepts _ _ _ heq (le_refl _)
  revert hmagic
  decide

end NetLabs.Ftp
