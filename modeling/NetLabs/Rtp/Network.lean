import NetLabs.Lib.Channel
import NetLabs.Lib.Transition
import NetLabs.Rtp.Receiver

/-!
# Sender, receiver and channel

The two programs joined by one unordered channel in each direction.  A process
step may take any frame in flight, a timeout may fire at any moment, and the
channel may lose, duplicate or corrupt a frame between any two steps.

A corrupted frame is a datagram that `recv_packet` rejects.  It carries the
packet that the struct holds after the receive, which may be anything.
-/

namespace NetLabs.Rtp

open NetLabs.Lib

/-- A datagram in flight. -/
inductive Frame where
  | intact (packet : Packet)
  | corrupted (packet : Packet)
  deriving DecidableEq, Repr

/-- What `recv_packet` reports for a frame. -/
def Frame.recv : Frame → Recv
  | .intact packet => .ok packet
  | .corrupted packet => .rejected packet

/-- A property of the packet of an intact frame. -/
def Frame.Sat (P : Packet → Prop) : Frame → Prop
  | .intact packet => P packet
  | .corrupted _ => True

/-- Corruption leaves a datagram that is rejected. -/
inductive Corrupts : Frame → Frame → Prop
  | corrupt (f : Frame) (packet : Packet) : Corrupts f (.corrupted packet)

structure Config where
  sender : SenderConfig
  receiver : ReceiverConfig

structure State where
  sender : Sender
  receiver : Receiver
  /-- Frames in flight from the sender to the receiver. -/
  toReceiver : List Frame
  /-- Frames in flight from the receiver to the sender. -/
  toSender : List Frame

/-- Which inputs a process can take from its incoming channel, and what is in
flight afterwards. -/
inductive Receives (c : List Frame) : Input → List Frame → Prop
  | run : Receives c .run c
  | exit : Receives c .exit c
  | timeout : Receives c (.recv .timeout) c
  | frame {f : Frame} (hmem : f ∈ c) : Receives c (.recv f.recv) (c.erase f)

inductive Event where
  | sender (input : Input)
  | receiver (input : Input)
  | channel (event : ChannelEvent)
  deriving DecidableEq, Repr

/-- One step of the sender, of the receiver, or of one of the channels. -/
inductive Step (cfg : Config) : State → Event → State → Prop
  | sender {s : State} {input : Input} {c : List Frame} {x : Sender} {sent : List Packet}
      (hreceives : Receives s.toSender input c)
      (hstep : s.sender.step cfg.sender input = some (x, sent)) :
      Step cfg s (.sender input)
        { s with sender := x, toReceiver := s.toReceiver ++ sent.map .intact, toSender := c }
  | receiver {s : State} {input : Input} {c : List Frame} {x : Receiver} {sent : List Packet}
      (hreceives : Receives s.toReceiver input c)
      (hstep : s.receiver.step cfg.receiver input = some (x, sent)) :
      Step cfg s (.receiver input)
        { s with receiver := x, toReceiver := c, toSender := s.toSender ++ sent.map .intact }
  | toReceiver {s : State} {e : ChannelEvent} {c : List Frame}
      (hchannel : ChannelStep Corrupts s.toReceiver e c) :
      Step cfg s (.channel e) { s with toReceiver := c }
  | toSender {s : State} {e : ChannelEvent} {c : List Frame}
      (hchannel : ChannelStep Corrupts s.toSender e c) :
      Step cfg s (.channel e) { s with toSender := c }

/-- Both programs at the start of `main`: the first SYN is in flight and the
receiver listens. -/
def State.start (cfg : Config) : State where
  sender := (Sender.start cfg.sender).1
  receiver := Receiver.start
  toReceiver := (Sender.start cfg.sender).2.map .intact
  toSender := []

/-- The two programs and the channels between them, from given states on. -/
def networkFrom (cfg : Config) (init : State → Prop) : System State Event where
  init
  step := Step cfg

/-- The two programs from the start of `main` on. -/
abbrev network (cfg : Config) : System State Event := networkFrom cfg (· = State.start cfg)

variable {init : State → Prop}

theorem reachable_sender {cfg : Config} {s : State} {x : Sender} {sent : List Packet}
    {c : List Frame} {input : Input} (hs : (networkFrom cfg init).Reachable s)
    (hreceives : Receives s.toSender input c)
    (hstep : s.sender.step cfg.sender input = some (x, sent)) :
    (networkFrom cfg init).Reachable
      { s with sender := x, toReceiver := s.toReceiver ++ sent.map .intact, toSender := c } :=
  .step hs (.sender hreceives hstep)

theorem reachable_receiver {cfg : Config} {s : State} {x : Receiver} {sent : List Packet}
    {c : List Frame} {input : Input} (hs : (networkFrom cfg init).Reachable s)
    (hreceives : Receives s.toReceiver input c)
    (hstep : s.receiver.step cfg.receiver input = some (x, sent)) :
    (networkFrom cfg init).Reachable
      { s with receiver := x, toReceiver := c, toSender := s.toSender ++ sent.map .intact } :=
  .step hs (.receiver hreceives hstep)

theorem path_sender {cfg : Config} {allowed : Event → Prop} {s t : State} {x : Sender}
    {sent : List Packet} {c : List Frame} {input : Input}
    (hpath : (networkFrom cfg init).Path allowed s t) (hallowed : allowed (.sender input))
    (hreceives : Receives t.toSender input c)
    (hstep : t.sender.step cfg.sender input = some (x, sent)) :
    (networkFrom cfg init).Path allowed s
      { t with sender := x, toReceiver := t.toReceiver ++ sent.map .intact, toSender := c } :=
  .tail hpath hallowed (.sender hreceives hstep)

theorem path_receiver {cfg : Config} {allowed : Event → Prop} {s t : State} {x : Receiver}
    {sent : List Packet} {c : List Frame} {input : Input}
    (hpath : (networkFrom cfg init).Path allowed s t) (hallowed : allowed (.receiver input))
    (hreceives : Receives t.toReceiver input c)
    (hstep : t.receiver.step cfg.receiver input = some (x, sent)) :
    (networkFrom cfg init).Path allowed s
      { t with receiver := x, toReceiver := c, toSender := t.toSender ++ sent.map .intact } :=
  .tail hpath hallowed (.receiver hreceives hstep)

/-! ## Packets in flight -/

/-- Every intact packet in flight satisfies `P`. -/
def InFlight (c : List Frame) (P : Packet → Prop) : Prop := ∀ f ∈ c, f.Sat P

namespace InFlight

variable {c c' : List Frame} {P Q : Packet → Prop}

theorem nil : InFlight [] P := by simp [InFlight]

theorem mono (h : InFlight c P) (hPQ : ∀ p, P p → Q p) : InFlight c Q := by
  intro f hf
  cases f with
  | intact p => exact hPQ p (h _ hf)
  | corrupted p => trivial

theorem send (h : InFlight c P) {sent : List Packet} (hsent : ∀ p ∈ sent, P p) :
    InFlight (c ++ sent.map .intact) P := by
  intro f hf
  rcases List.mem_append.mp hf with hf | hf
  · exact h f hf
  · obtain ⟨p, hp, rfl⟩ := List.mem_map.mp hf
    exact hsent p hp

theorem receives {input : Input} (h : InFlight c P) (hr : Receives c input c') :
    InFlight c' P := by
  cases hr with
  | frame => exact fun f hf => h f (List.mem_of_mem_erase hf)
  | _ => exact h

theorem channel {e : ChannelEvent} (h : InFlight c P) (hc : ChannelStep Corrupts c e c') :
    InFlight c' P :=
  hc.forall_mem (fun _ _ hcorrupts _ => by cases hcorrupts; trivial) h

/-- The packet of an intact receive was in flight. -/
theorem received {p : Packet} (h : InFlight c P) (hr : Receives c (.recv (.ok p)) c') : P p := by
  generalize hinput : Input.recv (.ok p) = input at hr
  cases hr with
  | @frame f hmem =>
    cases f with
    | intact q =>
      cases hinput
      exact h _ hmem
    | corrupted q => cases hinput
  | _ => cases hinput

end InFlight

/-! ## Runs -/

/-- A process can take the only frame in flight. -/
theorem Receives.single (f : Frame) : Receives [f] (.recv f.recv) [] := by
  have h := Receives.frame (c := [f]) (f := f) (by simp)
  rwa [List.erase_cons_head] at h

/-- Without losses every connection reaches the third handshake. -/
theorem handshake_reachable (cfg : Config) :
    (network cfg).Reachable
      { sender :=
          { pc := .ackSent, fatal := false, tries := logDebugTries cfg.sender.ldebug 0,
            sqn := seqnumAdd cfg.sender.isn 1, wbase := cfg.sender.isn, shift := 0, window := [] }
        receiver :=
          { Receiver.start with
            pc := .synReceived, tries := logDebugTries cfg.receiver.ldebug 0,
            sqn := seqnumAdd cfg.sender.isn 1 }
        toReceiver := [.intact (controlPacket (seqnumAdd cfg.sender.isn 1) rtpAck)]
        toSender := [] } := by
  have h : (network cfg).Reachable (State.start cfg) := .init rfl
  simp only [State.start, Sender.start_eq, List.map_cons, List.map_nil] at h
  replace h := reachable_receiver h (.single _) (Receiver.step_syn cfg.receiver cfg.sender.isn)
  exact reachable_sender h (.single _) (Sender.step_synAck cfg.sender rfl rfl)

/-- Without losses every connection reaches the transfer, with the first batch
in flight. -/
theorem transfer_reachable (cfg : Config) (x : Sender) (sent : List Packet)
    (hstart : Sender.transferStart cfg.sender
        { pc := .established, fatal := false, tries := logDebugTries cfg.sender.ldebug 0,
          sqn := seqnumAdd cfg.sender.isn 1, wbase := cfg.sender.isn, shift := 0,
          window := [] } = (x, sent)) :
    (network cfg).Reachable
      { sender := x
        receiver := Receiver.transferStart cfg.receiver
          { Receiver.start with
            tries := logDebugTries cfg.receiver.ldebug 0, sqn := seqnumAdd cfg.sender.isn 1 }
        toReceiver := sent.map .intact
        toSender := [] } := by
  have h := handshake_reachable cfg
  replace h := reachable_sender h .timeout (Sender.step_confirm_timeout _ rfl rfl)
  replace h := reachable_receiver h (.single _) (Receiver.step_ack _ rfl rfl)
  replace h := reachable_receiver h .run (Receiver.step_enter _ rfl rfl)
  exact reachable_sender h .run ((Sender.step_enter _ rfl rfl).trans (congrArg some hstart))

/-- Both programs in one mode, with a file of one byte. -/
def oneByte (mode : Mode) : Config where
  sender := { isn := getRandomSeqnum, file := [7], wsize := 1, wsize_pos := by decide, mode,
              ldebug := false }
  receiver := { wsize := 1, wsize_pos := by decide, mode, ldebug := false }

/-- The number of the only ACK of this transfer. -/
def oneByteAck : Mode → UInt32
  | .sr => 0
  | .gbn => 1

/-- Both programs can return normally, in either mode. -/
theorem oneByte_closed (mode : Mode) :
    ∃ s, (network (oneByte mode)).Reachable s ∧ s.sender.pc = .closed ∧
      s.receiver.pc = .closed := by
  have h := transfer_reachable (oneByte mode) ⟨.transfer, false, 0, 1, 0, 0, [false]⟩
    [⟨0, 0, [7]⟩] (by cases mode <;> decide +kernel)
  generalize hy : Receiver.transferStart (oneByte mode).receiver _ = y at h
  have hpc : y.pc = .transfer := by rw [← hy]; rfl
  have hfatal : y.fatal = false := by rw [← hy]; rfl
  have hanswer : ∃ z, Receiver.step (oneByte mode).receiver y (.recv (.ok ⟨0, 0, [7]⟩)) =
      some (z, [controlPacket (oneByteAck mode) rtpAck]) ∧ z.pc = .transfer ∧ z.fatal = false := by
    rw [Receiver.step_transfer_data _ hpc hfatal rfl, ← hy]
    cases mode <;> exact ⟨_, rfl, rfl, rfl⟩
  obtain ⟨z, hdata, hzpc, hzfatal⟩ := hanswer
  replace h := reachable_receiver h (.single _) hdata
  have hack : Sender.step (oneByte mode).sender ⟨.transfer, false, 0, 1, 0, 0, [false]⟩
      (.recv (.ok (controlPacket (oneByteAck mode) rtpAck))) =
      some (⟨.transferred, false, 0, 1, 1, 1, [false]⟩, []) := by
    cases mode <;> decide +kernel
  replace h := reachable_sender h (.single _) hack
  -- the FIN, the FIN|ACK, and the timeout of the single extra receive
  have hfin : Sender.step (oneByte mode).sender ⟨.transferred, false, 0, 1, 1, 1, [false]⟩ .run =
      some (⟨.finSent, false, 0, 1, 1, 1, [false]⟩, [controlPacket 1 rtpFin]) := by
    cases mode <;> rfl
  have hfinAck : Sender.step (oneByte mode).sender ⟨.finSent, false, 0, 1, 1, 1, [false]⟩
      (.recv (.ok (controlPacket 1 (rtpAck ||| rtpFin)))) =
      some (⟨.closed, false, 0, 1, 1, 1, [false]⟩, []) := by
    cases mode <;> rfl
  replace h := reachable_sender h .run hfin
  replace h := reachable_receiver h .timeout (Receiver.step_transfer_timeout _ hzpc hzfatal)
  replace h := reachable_receiver h (.single _) (Receiver.step_fin (x := z.transferEnd) _ rfl hzfatal 1)
  replace h := reachable_receiver h .timeout
    (Receiver.step_close_timeout (x := { z.transferEnd with pc := .finReplied, sqn := 1 }) _ rfl
      hzfatal)
  exact ⟨_, reachable_sender h (.single _) hfinAck, rfl, rfl⟩

end NetLabs.Rtp
