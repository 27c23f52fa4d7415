import NetLabs.Lib.ChannelRefinement
import NetLabs.Rtp.Syndrome
import NetLabs.Rtp.Transfer

/-!
# The connection over datagrams

The two programs joined by channels of byte strings, with `send_packet` and
`recv_packet` between the programs and the channels.  A channel loses,
duplicates and reorders datagrams and damages them: a burst of up to 32 bits in
one region, two bits anywhere, a datagram cut short, or one with bytes behind it.

* `sendPacket_prefix_free`: no datagram of `send_packet` is the beginning of
  another one.
* `damage_sound`: a damaged datagram is rejected, or it is accepted as the
  packet that was sent.
* `simulates_packets`: the datagram network is simulated by the network of
  packets, in which a damaged datagram is a corrupted frame.
* `datagrams_refine_packets`: so every state of the two programs that a run over
  datagrams reaches is one that a run over packets reaches.
-/

namespace NetLabs.Rtp

open NetLabs.Lib

/-! ## Damage -/

/-- `recv_packet` accepts the datagram as packet `p`. -/
def Accepted (datagram : List UInt8) (p : Packet) : Prop :=
  p.payload.length ≤ payloadMax ∧ datagram.take rtpPacketSize = sendPacket p

theorem recvPacket_of_accepted {datagram : List UInt8} {p : Packet} (h : Accepted datagram p)
    (m : PacketMem) : (recvPacket m datagram).1 = .ok p := recvPacket_eq_ok_iff.mpr h

theorem sendPacket_length (p : Packet) :
    (sendPacket p).length = rtpHeaderSize + p.payload.length := encode_length _ _

theorem accepted_sendPacket {p : Packet} (hp : p.payload.length ≤ payloadMax) :
    Accepted (sendPacket p) p := by
  refine ⟨hp, List.take_of_length_le ?_⟩
  rw [sendPacket_length, rtpPacketSize]
  omega

/-- What the channel does to one datagram of `send_packet`. -/
inductive Damage : List UInt8 → List UInt8 → Prop
  /-- Some of up to 32 neighbouring bits are flipped. -/
  | burst {p : Packet} (hp : p.payload.length ≤ payloadMax) {region : Region}
      {error : List UInt8} (hlength : error.length = (sendPacket p).length)
      (hburst : BurstWithin 32 error) (hregion : InRegion region error) :
      Damage (sendPacket p) (corrupt (sendPacket p) error)
  /-- Two bits are flipped, wherever they are. -/
  | flips {p : Packet} (hp : p.payload.length ≤ payloadMax) {i j : Nat}
      (hi : i < 8 * (sendPacket p).length) (hj : j < 8 * (sendPacket p).length) (hne : i ≠ j) :
      Damage (sendPacket p) (flipBit (flipBit (sendPacket p) i) j)
  /-- The end is missing. -/
  | cut {p : Packet} (hp : p.payload.length ≤ payloadMax) {n : Nat}
      (hn : n < (sendPacket p).length) : Damage (sendPacket p) ((sendPacket p).take n)
  /-- Something follows. -/
  | grow {p : Packet} (hp : p.payload.length ≤ payloadMax) (rest : List UInt8) :
      Damage (sendPacket p) (sendPacket p ++ rest)

/-- The datagrams of `send_packet` are a prefix code. -/
theorem sendPacket_prefix_free {datagram : List UInt8} {p q : Packet}
    (hp : p.payload.length ≤ payloadMax) (hq : q.payload.length ≤ payloadMax)
    (hpre : sendPacket p <+: datagram) (hpre' : sendPacket q <+: datagram) : p = q := by
  have hfield : toLE 2 p.length = toLE 2 q.length := by
    rw [← slice_of_prefix hpre, slice_of_prefix hpre']
  have hlength : p.payload.length = q.payload.length := by
    have hnat := congrArg ofLE hfield
    simp only [ofLE_toLE, Packet.length, payloadMax] at hnat hp hq
    omega
  have hsame : sendPacket p = sendPacket q := by
    rw [List.prefix_iff_eq_take.mp hpre, List.prefix_iff_eq_take.mp hpre', sendPacket_length,
      sendPacket_length, hlength]
  have hread : (recvPacket ⟨.replicate rtpPacketSize 0, List.length_replicate⟩ (sendPacket p)).1 =
      .ok q := by
    rw [hsame]
    exact recvPacket_sendPacket _ hq
  rw [recvPacket_sendPacket _ hp] at hread
  exact Recv.ok.inj hread

/-- Damage does not make a datagram acceptable as something else. -/
theorem damage_sound {d d' : List UInt8} (h : Damage d d') {q : Packet} (haccepted : Accepted d' q) :
    Accepted d q := by
  cases h with
  | burst hp hlength hburst hregion =>
    have hrejected := burst_rejected hp ⟨.replicate rtpPacketSize 0, List.length_replicate⟩ hlength
      hburst hregion
    rw [recvPacket_of_accepted haccepted] at hrejected
    cases hrejected
  | flips hp hi hj hne =>
    have hrejected := two_bits_rejected hp ⟨.replicate rtpPacketSize 0, List.length_replicate⟩
      hi hj hne
    rw [recvPacket_of_accepted haccepted] at hrejected
    cases hrejected
  | @cut p hp n hn =>
    have hpre : sendPacket q <+: sendPacket p := by
      rw [← haccepted.2]
      exact (List.take_prefix _ _).trans (List.take_prefix _ _)
    have hsame := sendPacket_prefix_free hp haccepted.1 (List.prefix_refl _) hpre
    have hlong := congrArg List.length haccepted.2
    rw [← hsame, List.length_take, List.length_take] at hlong
    omega
  | @grow p hp rest =>
    have hpre : sendPacket q <+: sendPacket p ++ rest := by
      rw [← haccepted.2]
      exact List.take_prefix _ _
    rw [← sendPacket_prefix_free hp haccepted.1 (List.prefix_append _ _) hpre]
    exact accepted_sendPacket hp

/-! ## Every packet that is sent fits -/

theorem controlPacket_fits {p : Packet} {seqNum : UInt32} {flags : UInt8}
    (h : p = controlPacket seqNum flags) : p.payload.length ≤ payloadMax := by
  rw [h]
  exact Nat.zero_le _

theorem SenderConfig.payload_length_le (cfg : SenderConfig) (k : Nat) :
    (cfg.payload k).length ≤ payloadMax := by
  have htail : cfg.tsize < payloadMax := Nat.mod_lt _ (Nat.succ_pos _)
  rw [payload, List.length_take, dsize]
  split <;> omega

namespace Sender

variable {cfg : SenderConfig}

theorem mem_sendBatch {shift fuel i : Nat} {sqn : UInt32} {p : Packet}
    (hp : p ∈ (sendBatch cfg shift fuel i sqn).2) : ∃ seqnum k, p = cfg.dataPacket seqnum k := by
  induction fuel generalizing i sqn with
  | zero => cases hp
  | succ fuel ih =>
    rw [sendBatch] at hp
    by_cases hmore : i < cfg.wsize ∧ i + shift < cfg.npacket
    · rw [if_pos hmore] at hp
      rcases List.mem_cons.mp hp with rfl | hp
      · exact ⟨_, _, rfl⟩
      · exact ih hp
    · rw [if_neg hmore] at hp
      cases hp

theorem mem_transferLoop {x : Sender} {p : Packet} (hp : p ∈ (transferLoop cfg x).2) :
    ∃ seqnum k, p = cfg.dataPacket seqnum k := by
  rw [transferLoop] at hp
  by_cases hmore : x.shift < cfg.npacket
  · rw [if_pos hmore] at hp
    by_cases hbase : x.wbase = x.sqn
    · rw [if_pos hbase] at hp
      exact mem_sendBatch hp
    · rw [if_neg hbase] at hp
      cases hp
  · rw [if_neg hmore] at hp
    cases hp

theorem mem_transferRecv {x : Sender} {r : Recv} {p : Packet}
    (hp : p ∈ (transferRecv cfg x r).2) : ∃ seqnum k, p = cfg.dataPacket seqnum k := by
  cases r with
  | timeout =>
    rcases List.mem_append.mp hp with hp | hp
    · obtain ⟨j, _, rfl⟩ := mem_resend hp
      exact ⟨_, _, rfl⟩
    · exact mem_transferLoop hp
  | rejected q => exact mem_transferLoop hp
  | ok q =>
    rcases transferRecv_ok cfg x q with heq | ⟨_, _, heq⟩ <;>
      rw [heq] at hp <;> exact mem_transferLoop hp

theorem step_payload {x x' : Sender} {input : Input} {sent : List Packet}
    (h : step cfg x input = some (x', sent)) : ∀ p ∈ sent, p.payload.length ≤ payloadMax := by
  have hdata : ∀ p, (∃ seqnum k, p = cfg.dataPacket seqnum k) → p.payload.length ≤ payloadMax := by
    rintro _ ⟨seqnum, k, rfl⟩
    exact cfg.payload_length_le k
  have ⟨_, hmove⟩ := move_of_step cfg h
  cases hmove with
  | exit | finAccept => exact nofun
  | synRetry | synAccept | fin | finRetry =>
    exact fun p hp => controlPacket_fits (List.mem_singleton.mp hp)
  | confirm _ hsent => exact fun p hp => controlPacket_fits (hsent p hp)
  | enter => exact fun p hp => hdata p (mem_transferLoop hp)
  | transfer => exact fun p hp => hdata p (mem_transferRecv hp)

end Sender

/-- The receiver sends no data. -/
theorem Receiver.step_payload {cfg : ReceiverConfig} {x x' : Receiver} {input : Input}
    {sent : List Packet} (h : Receiver.step cfg x input = some (x', sent)) :
    ∀ p ∈ sent, p.payload.length ≤ payloadMax := by
  have ⟨_, hmove⟩ := Receiver.move_of_step cfg h
  cases hmove with
  | exit | listenTimeout | listenSkip | synAccept | enter | leave | skip | finSkip => exact nofun
  | syn | synRetry | fin => exact fun p hp => controlPacket_fits (List.mem_singleton.mp hp)
  | @data p hpc hflags =>
    unfold Receiver.recvData
    cases cfg.mode with
    | sr =>
      simp only [Receiver.recvSr]
      split_ifs
      · exact fun p hp => controlPacket_fits (List.mem_singleton.mp hp)
      · exact fun p hp => controlPacket_fits (List.mem_singleton.mp hp)
      · exact nofun
    | gbn => exact fun p hp => controlPacket_fits (List.mem_singleton.mp hp)
  | close _ _ hsent => exact fun p hp => controlPacket_fits (hsent p hp)

/-! ## The datagram network -/

/-- The two programs and the datagrams in flight. -/
structure DatagramState where
  sender : Sender
  receiver : Receiver
  toReceiver : List (List UInt8)
  toSender : List (List UInt8)

/-- Which inputs a process can take from a channel of datagrams.  The packet
struct is a local variable of each function, so that its old contents are left
open. -/
inductive RecvPacket (c : List (List UInt8)) : Input → List (List UInt8) → Prop
  | run : RecvPacket c .run c
  | exit : RecvPacket c .exit c
  | timeout : RecvPacket c (.recv .timeout) c
  | datagram {d : List UInt8} (hmem : d ∈ c) (m : PacketMem) :
      RecvPacket c (.recv (recvPacket m d).1) (c.erase d)

/-- One step of a program or of a channel. -/
inductive DatagramStep (cfg : Config) : DatagramState → Event → DatagramState → Prop
  | sender {w : DatagramState} {input : Input} {c : List (List UInt8)} {x : Sender}
      {sent : List Packet} (hrecv : RecvPacket w.toSender input c)
      (hstep : w.sender.step cfg.sender input = some (x, sent)) :
      DatagramStep cfg w (.sender input)
        { w with sender := x, toReceiver := w.toReceiver ++ sent.map sendPacket, toSender := c }
  | receiver {w : DatagramState} {input : Input} {c : List (List UInt8)} {x : Receiver}
      {sent : List Packet} (hrecv : RecvPacket w.toReceiver input c)
      (hstep : w.receiver.step cfg.receiver input = some (x, sent)) :
      DatagramStep cfg w (.receiver input)
        { w with receiver := x, toReceiver := c, toSender := w.toSender ++ sent.map sendPacket }
  | toReceiver {w : DatagramState} {e : ChannelEvent} {c : List (List UInt8)}
      (hchannel : ChannelStep Damage w.toReceiver e c) :
      DatagramStep cfg w (.channel e) { w with toReceiver := c }
  | toSender {w : DatagramState} {e : ChannelEvent} {c : List (List UInt8)}
      (hchannel : ChannelStep Damage w.toSender e c) :
      DatagramStep cfg w (.channel e) { w with toSender := c }

/-- Both programs at the start of `main`. -/
def DatagramState.start (cfg : Config) : DatagramState where
  sender := (Sender.start cfg.sender).1
  receiver := Receiver.start
  toReceiver := (Sender.start cfg.sender).2.map sendPacket
  toSender := []

def datagramNetwork (cfg : Config) : System DatagramState Event where
  init := (· = DatagramState.start cfg)
  step := DatagramStep cfg

/-! ## Simulation -/

/-- What a datagram in flight is to `recv_packet`. -/
def Reads (d : List UInt8) : Frame → Prop
  | .intact p => Accepted d p
  | .corrupted _ => ∀ p, ¬ Accepted d p

/-- The same programs, and datagrams that read as the frames. -/
structure Refines (w : DatagramState) (s : State) : Prop where
  sender : s.sender = w.sender
  receiver : s.receiver = w.receiver
  toReceiver : Carries Reads w.toReceiver s.toReceiver
  toSender : Carries Reads w.toSender s.toSender

theorem reads_of_damage {d d' : List UInt8} {f : Frame} (h : Damage d d') (hf : Reads d f) :
    Reads d' f ∨ ∃ f', Corrupts f f' ∧ Reads d' f' := by
  by_cases haccepted : ∃ q, Accepted d' q
  · obtain ⟨q, hq⟩ := haccepted
    have hd := damage_sound h hq
    cases f with
    | intact p =>
      have hsame := (recvPacket_of_accepted hf ⟨.replicate rtpPacketSize 0, List.length_replicate⟩).symm.trans
        (recvPacket_of_accepted hd _)
      rw [Recv.ok.inj hsame]
      exact .inl hq
    | corrupted p => exact absurd hd (hf q)
  · rw [not_exists] at haccepted
    exact .inr ⟨.corrupted ⟨0, 0, []⟩, .corrupt _ _, haccepted⟩

/-- What one program can receive as datagrams, the other can receive as frames.  A
datagram that is rejected shows the struct's contents, and the frame is
corrupted once more to show the same. -/
theorem exists_receives {c c' : List (List UInt8)} {l : List Frame} {input : Input}
    (h : Carries Reads c l) (hrecv : RecvPacket c input c') :
    ∃ l₁ l₂, (l₁ = l ∨ ChannelStep Corrupts l .garble l₁) ∧ Receives l₁ input l₂ ∧
      Carries Reads c' l₂ := by
  cases hrecv with
  | run => exact ⟨l, l, .inl rfl, .run, h⟩
  | exit => exact ⟨l, l, .inl rfl, .exit, h⟩
  | timeout => exact ⟨l, l, .inl rfl, .timeout, h⟩
  | @datagram d hmem m =>
    obtain ⟨f, hf, hreads, hrest⟩ := h.take hmem
    cases f with
    | intact p =>
      rw [recvPacket_of_accepted hreads m]
      exact ⟨l, _, .inl rfl, .frame hf, hrest⟩
    | corrupted q =>
      obtain ⟨buf, _, _, hrejected | hok⟩ := recvPacket_cases m d
      · have hgarble : ChannelStep Corrupts l .garble (.corrupted buf.packet :: l.erase (.corrupted q)) :=
          .garble hf (.corrupt _ _)
        have htake : Receives (.corrupted buf.packet :: l.erase (.corrupted q))
            (.recv (Frame.corrupted buf.packet).recv) (l.erase (.corrupted q)) := by
          have hframe := Receives.frame (List.mem_cons_self (a := Frame.corrupted buf.packet)
            (l := l.erase (.corrupted q)))
          rwa [List.erase_cons_head] at hframe
        rw [hrejected]
        exact ⟨_, _, .inr hgarble, htake, hrest⟩
      · exact absurd (recvPacket_eq_ok_iff.mp hok) (hreads _)

/-- **The network of packets simulates the network of datagrams.** -/
theorem simulates_packets (cfg : Config) :
    Simulation (datagramNetwork cfg) (network cfg) Refines where
  init w hinit := by
    rw [show w = DatagramState.start cfg from hinit]
    refine ⟨State.start cfg, rfl, rfl, rfl, ?_, .nil⟩
    have hsyn : ∀ p ∈ (Sender.start cfg.sender).2, Reads (sendPacket p) (.intact p) := by
      rw [Sender.start_eq]
      intro p hp
      rw [List.mem_singleton.mp hp]
      exact accepted_sendPacket (Nat.zero_le _)
    exact Carries.nil.send hsyn
  step w e w' s _ hR hstep := by
    have hstart : (network cfg).Path (fun _ => True) s s := .refl s
    cases hstep with
    | @sender input c x sent hrecv hstep =>
      obtain ⟨l₁, l₂, hgarble, hreceives, hrest⟩ := exists_receives hR.toSender hrecv
      have hready : (network cfg).Path (fun _ => True) s { s with toSender := l₁ } := by
        rcases hgarble with rfl | hgarble
        · exact hstart
        · exact .single trivial (Step.toSender hgarble)
      rw [← hR.sender] at hstep
      refine ⟨_, path_sender hready trivial hreceives hstep, rfl, hR.receiver, ?_, hrest⟩
      exact hR.toReceiver.send fun p hp => accepted_sendPacket (Sender.step_payload hstep p hp)
    | @receiver input c x sent hrecv hstep =>
      obtain ⟨l₁, l₂, hgarble, hreceives, hrest⟩ := exists_receives hR.toReceiver hrecv
      have hready : (network cfg).Path (fun _ => True) s { s with toReceiver := l₁ } := by
        rcases hgarble with rfl | hgarble
        · exact hstart
        · exact .single trivial (Step.toReceiver hgarble)
      rw [← hR.receiver] at hstep
      refine ⟨_, path_receiver hready trivial hreceives hstep, hR.sender, rfl, hrest, ?_⟩
      exact hR.toSender.send fun p hp => accepted_sendPacket (Receiver.step_payload hstep p hp)
    | toReceiver hchannel =>
      rcases hR.toReceiver.channel hchannel fun _ _ _ => reads_of_damage with hsame | ⟨l, hl, hrel⟩
      · exact ⟨s, hstart, hR.sender, hR.receiver, hsame, hR.toSender⟩
      · exact ⟨_, .single trivial (Step.toReceiver hl), hR.sender, hR.receiver, hrel, hR.toSender⟩
    | toSender hchannel =>
      rcases hR.toSender.channel hchannel fun _ _ _ => reads_of_damage with hsame | ⟨l, hl, hrel⟩
      · exact ⟨s, hstart, hR.sender, hR.receiver, hR.toReceiver, hsame⟩
      · exact ⟨_, .single trivial (Step.toSender hl), hR.sender, hR.receiver, hR.toReceiver, hrel⟩

/-- **Datagrams refine packets**: whatever the two programs do over channels that
lose, duplicate, reorder and damage datagrams, they can also do over channels of
packets in which damage is always noticed. -/
theorem datagrams_refine_packets (cfg : Config) {w : DatagramState}
    (hw : (datagramNetwork cfg).Reachable w) :
    ∃ s, (network cfg).Reachable s ∧ s.sender = w.sender ∧ s.receiver = w.receiver ∧
      Carries Reads w.toReceiver s.toReceiver ∧ Carries Reads w.toSender s.toSender := by
  obtain ⟨s, hs, hR⟩ := (simulates_packets cfg).reachable hw
  exact ⟨s, hs, hR.sender, hR.receiver, hR.toReceiver, hR.toSender⟩

/-- In either mode, when one of the programs returns normally the receiver has
written the payloads of the sender, over datagrams too. -/
theorem datagrams_deliver {cfg : Config} (hcfg : cfg.Compatible) {w : DatagramState}
    (hw : (datagramNetwork cfg).Reachable w)
    (hclosed : w.sender.pc = .closed ∨ w.receiver.pc = .closed) :
    w.receiver.file = some (cfg.sender.assigned.map some) := by
  obtain ⟨s, hs, hR⟩ := (simulates_packets cfg).reachable hw
  rw [← hR.sender, ← hR.receiver] at hclosed
  rw [← hR.receiver]
  exact file_eq_of_closed hcfg hs hclosed

/-- The SYN with a byte behind it is in flight. -/
theorem datagrams_refine_grownSyn :
    ∃ w, (datagramNetwork (oneByte .sr)).Reachable w ∧
      sendPacket (controlPacket getRandomSeqnum rtpSyn) ++ [0] ∈ w.toReceiver ∧
      ∃ s, (network (oneByte .sr)).Reachable s ∧ s.sender = w.sender ∧ s.receiver = w.receiver ∧
        Carries Reads w.toReceiver s.toReceiver ∧ Carries Reads w.toSender s.toSender := by
  have hstart : (datagramNetwork (oneByte .sr)).Reachable (DatagramState.start (oneByte .sr)) :=
    .init rfl
  have hgrow : Damage (sendPacket (controlPacket getRandomSeqnum rtpSyn))
      (sendPacket (controlPacket getRandomSeqnum rtpSyn) ++ [0]) := .grow (Nat.zero_le _) [0]
  have hsyn : sendPacket (controlPacket getRandomSeqnum rtpSyn) ∈
      (DatagramState.start (oneByte .sr)).toReceiver := by
    rw [DatagramState.start, Sender.start_eq]
    exact List.mem_singleton_self _
  have hw := System.Reachable.step hstart (DatagramStep.toReceiver (.garble hsyn hgrow))
  exact ⟨_, hw, List.mem_cons_self, datagrams_refine_packets (oneByte .sr) hw⟩

end NetLabs.Rtp
