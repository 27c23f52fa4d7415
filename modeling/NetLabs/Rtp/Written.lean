import NetLabs.Lib.Overlay
import NetLabs.Rtp.Placement

/-!
# The file that the receiver writes

The receiver copies every accepted packet to a multiple of `PAYLOAD_MAX` and
writes as many bytes as it has counted: up to the furthest end in selective
repeat, the sum of the lengths in go-back-N.  A packet that is missing or short
leaves bytes that were never received in front of the packets behind it, and a disk
that is full cuts the file short, which `write_file` does not notice.

* `afterRecvs_written` reads the buffer and the size off the accepted packets of
  a run.
* `writesReceived_iff` says for which accepted packets and which disks the file is
  what was received, and `receiver_writes_received_iff` carries it to runs.
-/

namespace NetLabs.Rtp

open NetLabs.Lib

namespace Receiver

/-- The file holds what was received.  `ws` are the accepted packets, each with
its place; `overlay ws` is what arrived under each place. -/
structure WritesReceived (mode : Mode) (ws : List (Nat × List UInt8))
    (file : List (Option UInt8)) : Prop where
  /-- Every byte of the file is a byte of an accepted packet, where it belongs. -/
  received : ∀ i (hi : i < file.length), ∃ w ∈ ws, w.1 = i / payloadMax ∧
    ∃ c, w.2[i % payloadMax]? = some c ∧ file.get ⟨i, hi⟩ = some c
  /-- What arrived stands in the order of the places, without gaps, to the end. -/
  ordered : ∃ n, (∀ w ∈ ws, w.1 < n) ∧ file = (joinBlocks (overlay ws) n).map some
  /-- In go-back-N the file is the concatenation of the payloads. -/
  concat : mode = .gbn → file = (ws.flatMap Prod.snd).map some

/-- Every place below `k` has got a full packet. -/
def FullBelow (ws : List (Nat × List UInt8)) (k : Nat) : Prop :=
  ∀ i < k, ∃ v ∈ ws, v.1 = i ∧ v.2.length = payloadMax

/-- The end of the last byte that was accepted. -/
def lastEnd (ws : List (Nat × List UInt8)) : Nat :=
  extent payloadMax (ws.filter fun w => !w.2.isEmpty)

/-- The accepted packets leave no hole, and the disk takes all their bytes.  In
selective repeat an empty packet moves the end of the file to its own place, which
does no harm where the disk is full exactly behind the last byte. -/
structure Gapless (mode : Mode) (room : Nat) (ws : List (Nat × List UInt8)) : Prop where
  full : ∀ w ∈ ws, w.2 ≠ [] → FullBelow ws w.1
  fits : lastEnd ws ≤ room
  empty : mode = .sr → room = lastEnd ws ∨ ∀ w ∈ ws, w.2 = [] → FullBelow ws w.1

/-- The number of bytes to write after the accepted packets. -/
def sizeAfter (mode : Mode) (fsize : Nat) (ws : List (Nat × List UInt8)) : Nat :=
  ws.foldl (fun fsize w => extend mode fsize w.1 w.2.length) fsize

variable {cfg : ReceiverConfig} {x : Receiver} {ws : List (Nat × List UInt8)}

/-! ## The accepted packets of a run -/

/-- The accepted packets behind one outcome. -/
theorem accepted_cons {p : Packet} {r : Recv} {rs : List Recv}
    (h : handled cfg x (r :: rs) = (x, p) :: handled cfg (recvData cfg x p).1 rs) :
    accepted cfg x (r :: rs) =
      match place cfg x p with
      | some k => (k, p.payload) :: accepted cfg (recvData cfg x p).1 rs
      | none => accepted cfg (recvData cfg x p).1 rs := by
  rw [accepted, h]
  cases hplace : place cfg x p with
  | none => rw [List.filterMap_cons_none (by simp [hplace]), accepted]
  | some k => rw [List.filterMap_cons_some (by simp [hplace]; rfl), accepted]

/-- The buffer and the size of a run, and the file once it has ended. -/
theorem afterRecvs_written (cfg : ReceiverConfig) (hpc : x.pc = .transfer) (rs : List Recv) :
    (afterRecvs cfg x rs).1.buf = fill payloadMax x.buf (accepted cfg x rs) ∧
      (afterRecvs cfg x rs).1.fsize = sizeAfter cfg.mode x.fsize (accepted cfg x rs) ∧
      ((afterRecvs cfg x rs).1.pc ≠ .transfer →
        (afterRecvs cfg x rs).1.file =
          some (readFirst (afterRecvs cfg x rs).1.buf (afterRecvs cfg x rs).1.fsize)) := by
  induction rs generalizing x with
  | nil => exact ⟨rfl, rfl, fun h => absurd hpc h⟩
  | cons r rs ih =>
    rw [afterRecvs_cons hpc]
    rcases handled_cases cfg hpc r rs with ⟨hstep, hrest⟩ | ⟨hstep, hrest⟩ | ⟨p, _, hstep, hrest⟩
    · have hnone : accepted cfg x (r :: rs) = [] := by
        rw [accepted, hrest]
        rfl
      rw [hstep, afterRecvs_ended (show ReceiverPc.finWait ≠ .transfer by decide), hnone]
      exact ⟨rfl, rfl, fun _ => rfl⟩
    · have hsame : accepted cfg x (r :: rs) = accepted cfg x rs := by
        rw [accepted, hrest]
        rfl
      rw [hstep, hsame]
      exact ih hpc
    · have hnext := ih ((recvData_pc cfg x p).trans hpc)
      rw [hstep, accepted_cons hrest]
      cases hplace : place cfg x p with
      | none =>
        rw [recvData_of_not_place hplace] at hnext ⊢
        exact hnext
      | some k =>
        obtain ⟨hbuf, hsize⟩ := recvData_of_place hplace
        rw [hbuf, hsize] at hnext
        exact hnext

/-- In go-back-N the places count up. -/
theorem accepted_gbn (hmode : cfg.mode = .gbn) (rs : List Recv) :
    (accepted cfg x rs).map Prod.fst = List.range' x.shift (accepted cfg x rs).length := by
  induction rs generalizing x with
  | nil => rfl
  | cons r rs ih =>
    by_cases hpc : x.pc = .transfer
    · rcases handled_cases cfg hpc r rs with ⟨_, hrest⟩ | ⟨_, hrest⟩ | ⟨p, _, _, hrest⟩
      · rw [accepted, hrest]
        rfl
      · rw [accepted, hrest]
        exact ih
      · rw [accepted_cons hrest]
        cases hplace : place cfg x p with
        | none =>
          rw [recvData_of_not_place hplace]
          exact ih
        | some k =>
          obtain ⟨heq, hk, _⟩ := recvData_gbn hmode hplace
          have hnext : (recvData cfg x p).1.shift = x.shift + 1 := by
            rw [heq]
            rfl
          have hrest' := ih (x := (recvData cfg x p).1)
          rw [hnext] at hrest'
          simp only [List.map_cons, List.length_cons, List.range'_succ, hrest', hk]
    · rw [accepted, handled_ended hpc]
      rfl

/-- The accepted packets come from the outcomes of the run. -/
theorem mem_handled {e : Receiver × Packet} {rs : List Recv} (he : e ∈ handled cfg x rs) :
    .ok e.2 ∈ rs := by
  induction rs generalizing x with
  | nil => cases he
  | cons r rs ih =>
    by_cases hpc : x.pc = .transfer
    · rcases handled_cases cfg hpc r rs with ⟨_, hrest⟩ | ⟨_, hrest⟩ | ⟨p, hr, _, hrest⟩
      · rw [hrest] at he
        cases he
      · rw [hrest] at he
        exact List.mem_cons_of_mem _ (ih he)
      · rw [hrest] at he
        rcases List.mem_cons.mp he with rfl | he
        · rw [hr]
          exact List.mem_cons_self
        · exact List.mem_cons_of_mem _ (ih he)
    · rw [handled_ended hpc] at he
      cases he

theorem length_le_of_mem_accepted {rs : List Recv}
    (hrs : ∀ p, .ok p ∈ rs → p.length ≤ payloadMax) :
    ∀ w ∈ accepted cfg x rs, w.2.length ≤ payloadMax := by
  intro w hw
  obtain ⟨e, he, hplace⟩ := List.mem_filterMap.mp hw
  obtain ⟨k, _, rfl⟩ := Option.map_eq_some_iff.mp hplace
  exact hrs e.2 (mem_handled he)

/-! ## When the file is what was received -/

/-- In terms of what stands at each place. -/
theorem fullBelow_iff (hws : ∀ w ∈ ws, w.2.length ≤ payloadMax) (k : Nat) :
    FullBelow ws k ↔ ∀ i < k, (overlay ws i).length = payloadMax := by
  have hfull : ∀ i, (overlay ws i).length = payloadMax ↔
      ∃ v ∈ ws, v.1 = i ∧ v.2.length = payloadMax :=
    fun _ => length_overlay_eq_iff (by decide) hws
  simp only [FullBelow, hfull]

/-- A byte that was written is a byte of an accepted packet. -/
theorem received_of_written (hws : ∀ w ∈ ws, w.2.length ≤ payloadMax) {m : Nat}
    (hall : ∀ i < m, fill payloadMax (fun _ => none) ws i ≠ none) :
    ∀ i (hi : i < (readFirst (fill payloadMax (fun _ => none) ws) m).length),
      ∃ w ∈ ws, w.1 = i / payloadMax ∧ ∃ c, w.2[i % payloadMax]? = some c ∧
        (readFirst (fill payloadMax (fun _ => none) ws) m).get ⟨i, hi⟩ = some c := by
  intro i hi
  have hm : i < m := by simpa [readFirst] using hi
  have hread : (readFirst (fill payloadMax (fun _ => none) ws) m).get ⟨i, hi⟩ =
      fill payloadMax (fun _ => none) ws i := by
    simp [readFirst]
  have hat := (represents_fill hws).at_eq (i / payloadMax) (i % payloadMax)
    (Nat.mod_lt _ (by decide))
  rw [Nat.mul_comm, Nat.div_add_mod] at hat
  obtain ⟨c, hc⟩ := Option.ne_none_iff_exists'.mp (hall i hm)
  rw [hc] at hat
  obtain ⟨w, hw, hplace, hbyte⟩ := exists_of_mem_overlay hat.symm
  exact ⟨w, hw, hplace, c, hbyte, hread.trans hc⟩

/-- A store that reads back as bytes was written there. -/
theorem written_of_map_some {m : Nat} {mem : Buffer} {bytes : List UInt8}
    (h : readFirst mem m = bytes.map some) : ∀ i < m, mem i ≠ none := by
  intro i hi hnone
  have hmem : none ∈ readFirst mem m := List.mem_map.mpr ⟨i, List.mem_range.mpr hi, hnone⟩
  rw [h] at hmem
  simp at hmem

theorem sizeAfter_gbn (fsize : Nat) (ws : List (Nat × List UInt8)) :
    sizeAfter .gbn fsize ws = fsize + (ws.flatMap Prod.snd).length := by
  induction ws generalizing fsize with
  | nil => rfl
  | cons w ws ih =>
    show sizeAfter .gbn (fsize + w.2.length) ws = _
    rw [ih, List.flatMap_cons, List.length_append]
    omega

/-- Without holes the bytes up to the last one accepted are what stands at the
places. -/
theorem read_lastEnd (hws : ∀ w ∈ ws, w.2.length ≤ payloadMax) {n : Nat}
    (hn : ∀ w ∈ ws, w.1 < n) (hfull : ∀ w ∈ ws, w.2 ≠ [] → FullBelow ws w.1) :
    readFirst (fill payloadMax (fun _ => none) ws) (lastEnd ws) =
      (joinBlocks (overlay ws) n).map some := by
  have hkept : ∀ w ∈ ws.filter fun w => !w.2.isEmpty, w ∈ ws ∧ w.2 ≠ [] := by
    intro w hw
    obtain ⟨hmem, hne⟩ := List.mem_filter.mp hw
    exact ⟨hmem, by simpa using hne⟩
  have hread := read_extent (fun w hw => hws w (hkept w hw).1) (fun w hw => hn w (hkept w hw).1)
    fun w hw i hi => by
      rw [overlay_filter]
      exact (fullBelow_iff hws _).mp (hfull w (hkept w hw).1 (hkept w hw).2) i hi
  rwa [overlay_filter, fill_filter] at hread

theorem length_join_eq (hws : ∀ w ∈ ws, w.2.length ≤ payloadMax) {n : Nat}
    (hn : ∀ w ∈ ws, w.1 < n) (hfull : ∀ w ∈ ws, w.2 ≠ [] → FullBelow ws w.1) :
    (joinBlocks (overlay ws) n).length = lastEnd ws := by
  have hlength := congrArg List.length (read_lastEnd hws hn hfull)
  simpa [readFirst] using hlength.symm

/-- Selective repeat counts up to the last byte accepted exactly when no empty packet
leaves a hole in front of it. -/
theorem extent_eq_lastEnd_iff (hws : ∀ w ∈ ws, w.2.length ≤ payloadMax)
    (hfull : ∀ w ∈ ws, w.2 ≠ [] → FullBelow ws w.1) :
    extent payloadMax ws = lastEnd ws ↔ ∀ w ∈ ws, w.2 = [] → FullBelow ws w.1 := by
  obtain ⟨n, hn⟩ := exists_bound ws
  constructor
  · intro heq w hw _
    refine (fullBelow_iff hws _).mpr fun i hi => ?_
    have hread := read_lastEnd hws hn hfull
    rw [← heq] at hread
    exact full_of_written hws (written_of_map_some hread) hw hi
  · intro hempty
    have hread := read_extent hws hn fun w hw => by
      by_cases hne : w.2 = []
      · exact (fullBelow_iff hws _).mp (hempty w hw hne)
      · exact (fullBelow_iff hws _).mp (hfull w hw hne)
    have hlength := congrArg List.length hread
    rw [readFirst, List.length_map, List.length_range, List.length_map] at hlength
    exact hlength.trans (length_join_eq hws hn hfull)

/-- Go-back-N counts the lengths. -/
theorem total_eq_lastEnd (hws : ∀ w ∈ ws, w.2.length ≤ payloadMax)
    (hplaces : ws.map Prod.fst = List.range ws.length)
    (hfull : ∀ w ∈ ws, w.2 ≠ [] → FullBelow ws w.1) :
    (ws.flatMap Prod.snd).length = lastEnd ws := by
  rw [← (overlay_of_successive hplaces).2.2]
  exact length_join_eq hws (lt_of_successive hplaces) hfull

/-- The number of bytes that stay on the disk is the end of the last byte accepted. -/
theorem min_size_eq_lastEnd_iff {mode : Mode} (hws : ∀ w ∈ ws, w.2.length ≤ payloadMax)
    (hplaces : mode = .gbn → ws.map Prod.fst = List.range ws.length)
    (hfull : ∀ w ∈ ws, w.2 ≠ [] → FullBelow ws w.1) (room : Nat) :
    min room (sizeAfter mode 0 ws) = lastEnd ws ↔ Gapless mode room ws := by
  cases mode with
  | sr =>
    have hsize : sizeAfter .sr 0 ws = extent payloadMax ws := rfl
    have hle : lastEnd ws ≤ extent payloadMax ws := extent_filter_le _ _ _
    have hiff := extent_eq_lastEnd_iff hws hfull
    rw [hsize]
    constructor
    · intro hmin
      refine ⟨hfull, by omega, fun _ => ?_⟩
      rw [← hiff]
      omega
    · intro h
      have hroom := h.fits
      have hempty := h.empty rfl
      rw [← hiff] at hempty
      omega
  | gbn =>
    have htotal := total_eq_lastEnd hws (hplaces rfl) hfull
    rw [sizeAfter_gbn, Nat.zero_add, htotal]
    constructor
    · intro hmin
      exact ⟨hfull, by omega, nofun⟩
    · intro h
      exact Nat.min_eq_right h.fits

/-- For any accepted packets, and a disk that takes any number of bytes. -/
theorem writesReceived_iff {mode : Mode} (hws : ∀ w ∈ ws, w.2.length ≤ payloadMax)
    (hplaces : mode = .gbn → ws.map Prod.fst = List.range ws.length) (room : Nat) :
    WritesReceived mode ws (writeFile room
        (readFirst (fill payloadMax (fun _ => none) ws) (sizeAfter mode 0 ws))) ↔
      Gapless mode room ws := by
  rw [writeFile, readFirst_take]
  constructor
  · intro h
    obtain ⟨n, hn, hread⟩ := h.ordered
    have hlength : min room (sizeAfter mode 0 ws) = (joinBlocks (overlay ws) n).length := by
      simpa [readFirst] using congrArg List.length hread
    rw [hlength] at hread
    have hjoin := (read_join_iff (represents_fill hws) n).mp hread
    have hfull : ∀ w ∈ ws, w.2 ≠ [] → FullBelow ws w.1 := by
      intro w hw hne
      refine (fullBelow_iff hws _).mpr (hjoin w.1 (hn w hw) fun hnil => hne ?_)
      have hle := length_le_overlay hw
      rw [hnil] at hle
      exact List.length_eq_zero_iff.mp (Nat.le_zero.mp hle)
    rw [length_join_eq hws hn hfull] at hlength
    exact (min_size_eq_lastEnd_iff hws hplaces hfull room).mp hlength
  · intro h
    obtain ⟨n, hn⟩ := exists_bound ws
    rw [(min_size_eq_lastEnd_iff hws hplaces h.full room).mpr h]
    have hread := read_lastEnd hws hn h.full
    refine ⟨received_of_written hws (written_of_map_some hread), ⟨n, hn, hread⟩, fun hmode => ?_⟩
    have hown := read_lastEnd hws (lt_of_successive (hplaces hmode)) h.full
    rwa [(overlay_of_successive (hplaces hmode)).2.2] at hown

end Receiver

/-- The file that the receiver writes.  Whatever ends the loop, in either mode, and
however many bytes the disk takes, the file holds exactly what was received if and
only if every accepted packet with a payload has a full packet at each place in
front of it and the disk has room for all of them.  In selective repeat empty
packets need full packets in front of them too, unless the disk is full exactly
behind the last byte. -/
theorem receiver_writes_received_iff (cfg : ReceiverConfig) (x : Receiver) (rs : List Recv)
    (room : Nat) (hrs : ∀ p, .ok p ∈ rs → p.length ≤ payloadMax)
    (hended : (Receiver.afterRecvs cfg (Receiver.transferStart cfg x) rs).1.pc ≠ .transfer) :
    ∃ bytes, (Receiver.afterRecvs cfg (Receiver.transferStart cfg x) rs).1.file = some bytes ∧
      (Receiver.WritesReceived cfg.mode
          (Receiver.accepted cfg (Receiver.transferStart cfg x) rs) (writeFile room bytes) ↔
        Receiver.Gapless cfg.mode room
          (Receiver.accepted cfg (Receiver.transferStart cfg x) rs)) := by
  obtain ⟨hbuf, hsize, hfile⟩ :=
    Receiver.afterRecvs_written (x := Receiver.transferStart cfg x) cfg rfl rs
  have hplaces : cfg.mode = .gbn →
      (Receiver.accepted cfg (Receiver.transferStart cfg x) rs).map Prod.fst =
        List.range (Receiver.accepted cfg (Receiver.transferStart cfg x) rs).length := by
    intro hmode
    rw [List.range_eq_range']
    exact Receiver.accepted_gbn (x := Receiver.transferStart cfg x) hmode rs
  refine ⟨_, hfile hended, ?_⟩
  rw [hbuf, hsize]
  exact Receiver.writesReceived_iff (Receiver.length_le_of_mem_accepted hrs) hplaces room

/-- A full packet, a packet of one byte, and the end of the transfer. -/
def fullThenShort : List Recv :=
  [.ok ⟨0, 0, List.replicate payloadMax 7⟩, .ok ⟨1, 0, [8]⟩, .timeout]

/-- On a disk with room for 1462 bytes the two make a file of their bytes. -/
theorem receiver_writes_received_fullThenShort :
    ∃ bytes, (Receiver.afterRecvs (oneByte .gbn).receiver
        (Receiver.transferStart (oneByte .gbn).receiver Receiver.start) fullThenShort).1.file =
        some bytes ∧
      writeFile 1462 bytes = (List.replicate payloadMax (7 : UInt8) ++ [8]).map some := by
  have hrs : ∀ p, .ok p ∈ fullThenShort → p.length ≤ payloadMax := by
    intro p hp
    simp only [fullThenShort, List.mem_cons, Recv.ok.injEq, reduceCtorEq, List.not_mem_nil,
      or_false] at hp
    rcases hp with rfl | rfl
    · exact Nat.le_of_eq List.length_replicate
    · decide
  have haccepted : Receiver.accepted (oneByte .gbn).receiver
      (Receiver.transferStart (oneByte .gbn).receiver Receiver.start) fullThenShort =
      [(0, List.replicate payloadMax 7), (1, [8])] := by decide +kernel
  obtain ⟨bytes, hbytes, hiff⟩ := receiver_writes_received_iff (oneByte .gbn).receiver
    Receiver.start fullThenShort 1462 hrs (by decide +kernel)
  rw [haccepted] at hiff
  have hwhole : Receiver.Gapless .gbn 1462 [(0, List.replicate payloadMax 7), (1, [8])] := by
    refine ⟨fun w hw _ i hi => ?_, by decide +kernel, nofun⟩
    rcases List.mem_cons.mp hw with rfl | hw
    · exact absurd hi (Nat.not_lt_zero i)
    · rw [List.mem_singleton.mp hw] at hi
      exact ⟨_, List.mem_cons_self, (Nat.lt_one_iff.mp hi).symm, List.length_replicate⟩
  exact ⟨bytes, hbytes, (hiff.mpr hwhole).concat rfl⟩

/-- Two packets of one byte each, in order, and the end of the transfer. -/
def twoShort : List Recv := [.ok ⟨0, 0, [7]⟩, .ok ⟨1, 0, [8]⟩, .timeout]

/-- In go-back-N the second byte of the file was never received, and the byte
of the second packet is missing.  In selective repeat 1460 such bytes stand
between the two.  And a single packet is lost on a disk that is full. -/
theorem twoShort_leaves_hole :
    (Receiver.afterRecvs (oneByte .gbn).receiver
        (Receiver.transferStart (oneByte .gbn).receiver Receiver.start) twoShort).1.file =
        some [some 7, none] ∧
      Receiver.accepted (oneByte .gbn).receiver
        (Receiver.transferStart (oneByte .gbn).receiver Receiver.start) twoShort =
        [(0, [7]), (1, [8])] ∧
      ¬ Receiver.WritesReceived .gbn [(0, [7]), (1, [8])] (writeFile 2 [some 7, none]) ∧
      (Receiver.afterRecvs (oneByte .sr).receiver
        (Receiver.transferStart (oneByte .sr).receiver Receiver.start) twoShort).1.file =
        some (some 7 :: List.replicate 1460 none ++ [some 8]) ∧
      ¬ Receiver.WritesReceived .gbn [(0, [7])] (writeFile 0 [some 7]) := by
  refine ⟨by decide +kernel, by decide +kernel, fun h => ?_, by decide +kernel, fun h => ?_⟩
  · obtain ⟨_, _, _, c, _, hbyte⟩ := h.received 1 (by decide)
    cases hbyte
  · have hwhole := h.concat rfl
    cases hwhole

end NetLabs.Rtp
