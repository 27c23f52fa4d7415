import NetLabs.Lib.Mail
import NetLabs.Rtp.Closing

/-!
# Datagrams from strangers

Each program keeps the address of its peer in the global `addr` and sends to it.
The same `addr` is handed to `recvfrom`, which overwrites it with the source of
every datagram that arrives, also of one that `recv_packet` then rejects.

Here the hosts are told apart.  The two programs run as before, but a datagram
goes to the host that `addr` names, and strangers write to the ports of the two
programs.  What a stranger sends is no RTP packet: `recv_packet` rejects it.

* `Addressed.Sound`: no program has its own address, and what comes from a
  stranger is rejected.
* `Covered` relates a state to one of the network without addresses that has the
  same programs and at least the same datagrams in flight.
* `strangers_refine`: strangers and addresses add no state of the two programs.
-/

namespace NetLabs.Rtp

open NetLabs.Lib

/-! ## Hosts and addresses -/

/-- The hosts that a `sockaddr_in` can name. -/
inductive Host where
  | sender
  | receiver
  | stranger (id : Nat)
  deriving DecidableEq, Repr

/-- Mail with a frame in it. -/
abbrev Letter := Mail Host Frame

structure Addressed where
  sender : Sender
  /-- The `addr` of `sender.c`. -/
  senderAddr : Host
  receiver : Receiver
  /-- The `addr` of `receiver.c`. -/
  receiverAddr : Host
  /-- What is in flight between all hosts. -/
  mail : List Letter

/-- `send_packet(sock, &addr, ...)` for each packet. -/
def sendTo (source addr : Host) (sent : List Packet) : List Letter :=
  sent.map fun p => ⟨source, addr, .intact p⟩

/-- Which inputs a program on host `me` can take, and what its `addr` and the
network are afterwards. -/
inductive ReceivesFrom (mail : List Letter) (me addr : Host) :
    Input → Host → List Letter → Prop
  | run : ReceivesFrom mail me addr .run addr mail
  | exit : ReceivesFrom mail me addr .exit addr mail
  | timeout : ReceivesFrom mail me addr (.recv .timeout) addr mail
  | datagram {m : Letter} (hmem : m ∈ mail) (hme : m.destination = me) :
      ReceivesFrom mail me addr (.recv m.content.recv) m.source (mail.erase m)

inductive AddressedEvent where
  | sender (input : Input)
  | receiver (input : Input)
  | channel (event : ChannelEvent)
  /-- A stranger sends a datagram. -/
  | stray (id : Nat) (destination : Host) (packet : Packet)
  deriving DecidableEq, Repr

/-- A step that no stranger takes. -/
def AddressedEvent.Own : AddressedEvent → Prop
  | .stray _ _ _ => False
  | _ => True

/-- One step of a program, of the network or of a stranger.  Strangers write to
the `noisy` hosts. -/
inductive AddressedStep (cfg : Config) (noisy : Host → Prop) :
    Addressed → AddressedEvent → Addressed → Prop
  | sender {s : Addressed} {input : Input} {addr : Host} {mail : List Letter} {x : Sender}
      {sent : List Packet}
      (hreceives : ReceivesFrom s.mail .sender s.senderAddr input addr mail)
      (hstep : s.sender.step cfg.sender input = some (x, sent)) :
      AddressedStep cfg noisy s (.sender input)
        { s with sender := x, senderAddr := addr, mail := mail ++ sendTo .sender addr sent }
  | receiver {s : Addressed} {input : Input} {addr : Host} {mail : List Letter} {x : Receiver}
      {sent : List Packet}
      (hreceives : ReceivesFrom s.mail .receiver s.receiverAddr input addr mail)
      (hstep : s.receiver.step cfg.receiver input = some (x, sent)) :
      AddressedStep cfg noisy s (.receiver input)
        { s with receiver := x, receiverAddr := addr, mail := mail ++ sendTo .receiver addr sent }
  | channel {s : Addressed} {e : ChannelEvent} {mail : List Letter}
      (hchannel : ChannelStep (Mail.Garbles Corrupts) s.mail e mail) :
      AddressedStep cfg noisy s (.channel e) { s with mail }
  | stray {s : Addressed} {id : Nat} {destination : Host} {packet : Packet}
      (hnoisy : noisy destination) :
      AddressedStep cfg noisy s (.stray id destination packet)
        { s with mail := ⟨.stranger id, destination, .corrupted packet⟩ :: s.mail }

/-- Both programs at the start of `main`.  The sender's `addr` is the one of the
command line, and the receiver's is the one it is bound to. -/
def Addressed.start (cfg : Config) : Addressed where
  sender := (Sender.start cfg.sender).1
  senderAddr := .receiver
  receiver := Receiver.start
  receiverAddr := .receiver
  mail := sendTo .sender .receiver (Sender.start cfg.sender).2

/-- The two programs, the network and the strangers. -/
def addressed (cfg : Config) (noisy : Host → Prop) : System Addressed AddressedEvent where
  init := (· = Addressed.start cfg)
  step := AddressedStep cfg noisy

/-- What is left when the addresses and the strangers' datagrams are left out. -/
def Addressed.plain (s : Addressed) : State where
  sender := s.sender
  receiver := s.receiver
  toReceiver := between .sender .receiver s.mail
  toSender := between .receiver .sender s.mail

/-! ## Where datagrams come from -/

@[simp] theorem mem_sendTo {source addr : Host} {sent : List Packet} {m : Letter} :
    m ∈ sendTo source addr sent ↔ ∃ p ∈ sent, m = ⟨source, addr, .intact p⟩ := by
  simp only [sendTo, List.mem_map, eq_comm]

/-- What is sent is added to the mail. -/
theorem forall_mem_sendTo {P : Letter → Prop} {mail : List Letter} {source addr : Host}
    {sent : List Packet} (hmail : ∀ m ∈ mail, P m)
    (hsent : ∀ p ∈ sent, P ⟨source, addr, .intact p⟩) :
    ∀ m ∈ mail ++ sendTo source addr sent, P m := by
  intro m hm
  rcases List.mem_append.mp hm with hm | hm
  · exact hmail m hm
  · obtain ⟨p, hp, rfl⟩ := mem_sendTo.mp hm
    exact hsent p hp

/-- No program writes to itself, and what comes from a stranger is rejected. -/
structure Sound (m : Letter) : Prop where
  apart : m.source ≠ m.destination ∨ ∃ id, m.source = .stranger id
  noise : ∀ id, m.source = .stranger id → ∃ p, m.content = .corrupted p

/-- No program has its own address, once it sends. -/
structure Addressed.Sound (s : Addressed) : Prop where
  mail : ∀ m ∈ s.mail, Rtp.Sound m
  senderAddr : s.senderAddr ≠ .sender
  receiverAddr : s.receiver.pc ≠ .listen → s.receiverAddr ≠ .receiver

variable {cfg : Config} {noisy : Host → Prop} {s s' : Addressed} {t t' : State}
  {mail mail' : List Letter} {me addr addr' : Host} {input : Input}

theorem ReceivesFrom.mem (h : ReceivesFrom mail me addr input addr' mail') {m : Letter}
    (hm : m ∈ mail') : m ∈ mail := by
  cases h with
  | datagram => exact List.mem_of_mem_erase hm
  | run | exit | timeout => exact hm

/-- A program that has heard from another host does not have its own address. -/
theorem ReceivesFrom.addr_ne (h : ReceivesFrom mail me addr input addr' mail')
    (hmail : ∀ m ∈ mail, Sound m) (hme : ∀ id, me ≠ .stranger id)
    (haddr : (∀ p, input ≠ .recv (.ok p)) → addr ≠ me) : addr' ≠ me := by
  cases h with
  | @datagram m hmem hdest =>
    intro heq
    rcases (hmail m hmem).apart with hne | ⟨id, hid⟩
    · exact hne (heq.trans hdest.symm)
    · exact hme id (heq.symm.trans hid)
  | run | exit | timeout => exact haddr nofun

/-- Without an intact packet the receiver neither enters nor leaves the two loops
of the handshake for the other one, and it sends in the second one only. -/
theorem Receiver.step_alone {cfg : ReceiverConfig} {x x' : Receiver} {sent : List Packet}
    (h : Receiver.step cfg x input = some (x', sent)) (halone : ∀ p, input ≠ .recv (.ok p)) :
    (x.pc = .listen → x'.pc = .listen) ∧ (x'.pc = .synReceived → x.pc = .synReceived) ∧
      (x.pc ≠ .synReceived → sent = []) := by
  obtain ⟨hfatal, hmove⟩ := Receiver.move_of_step cfg h
  cases hmove with
  | exit => exact ⟨id, id, fun _ => rfl⟩
  | listenTimeout | listenSkip => exact ⟨id, id, fun _ => rfl⟩
  | synRetry hpc => exact ⟨id, id, fun hno => absurd hpc hno⟩
  | enter hpc | leave hpc => exact ⟨by rw [hpc]; nofun, nofun, fun _ => rfl⟩
  | skip | finSkip => exact ⟨id, id, fun _ => rfl⟩
  | syn | synAccept | data | fin => exact absurd rfl (halone _)
  | @close r sent hpc sqn _ =>
    refine ⟨by rw [hpc]; nofun, nofun, fun _ => ?_⟩
    cases r with
    | ok p => exact absurd rfl (halone p)
    | timeout | rejected p =>
      simp only [Receiver.step, hfatal, Receiver.recv, hpc, Receiver.finRepliedRecv] at h
      cases h
      rfl

/-- Where datagrams come from is kept by every step. -/
theorem Addressed.Sound.step {e : AddressedEvent} (h : s.Sound)
    (hstep : AddressedStep cfg noisy s e s') : s'.Sound := by
  cases hstep with
  | @sender input addr mail x sent hreceives hstep =>
    have haddr : addr ≠ .sender := hreceives.addr_ne h.mail nofun fun _ => h.senderAddr
    exact ⟨forall_mem_sendTo (fun m hm => h.mail m (hreceives.mem hm))
      fun p _ => ⟨.inl haddr.symm, nofun⟩, haddr, h.receiverAddr⟩
  | @receiver input addr mail x sent hreceives hstep =>
    have haddr : x.pc ≠ .listen → addr ≠ .receiver := fun hpc =>
      hreceives.addr_ne h.mail nofun fun halone =>
        h.receiverAddr fun hlisten => hpc ((Receiver.step_alone hstep halone).1 hlisten)
    refine ⟨forall_mem_sendTo (fun m hm => h.mail m (hreceives.mem hm)) fun p hp =>
      ⟨.inl (haddr fun hlisten => ?_).symm, nofun⟩, h.senderAddr, haddr⟩
    rw [(Receiver.step_listen hstep hlisten).2] at hp
    cases hp
  | channel hchannel =>
    refine ⟨hchannel.forall_mem (fun m m' hgarbles hm => ?_) h.mail, h.senderAddr, h.receiverAddr⟩
    cases hgarbles with
    | content hcorrupts =>
      cases hcorrupts
      exact ⟨hm.apart, fun _ _ => ⟨_, rfl⟩⟩
  | stray =>
    refine ⟨fun m hm => ?_, h.senderAddr, h.receiverAddr⟩
    rcases List.mem_cons.mp hm with rfl | hm
    · exact ⟨.inr ⟨_, rfl⟩, fun _ _ => ⟨_, rfl⟩⟩
    · exact h.mail m hm

theorem sound_reachable (hs : (addressed cfg noisy).Reachable s) : s.Sound := by
  refine hs.invariant (P := Addressed.Sound) ?_ fun _ _ _ _ h hstep => h.step hstep
  intro s hinit
  rw [show s = Addressed.start cfg from hinit]
  refine ⟨fun m hm => ?_, nofun, fun hpc => absurd rfl hpc⟩
  obtain ⟨p, _, rfl⟩ := mem_sendTo.mp hm
  exact ⟨.inl nofun, nofun⟩

/-! ## Frames in flight as a set -/

/-- The same programs, and the same frames in flight. -/
structure State.Same (t u : State) : Prop where
  sender : t.sender = u.sender
  receiver : t.receiver = u.receiver
  toReceiver : ∀ f, f ∈ t.toReceiver ↔ f ∈ u.toReceiver
  toSender : ∀ f, f ∈ t.toSender ↔ f ∈ u.toSender

variable {allowed : ChannelEvent → Prop} {init : State → Prop}

theorem path_toReceiver (cfg : Config) {c : List Frame}
    (h : (channel Corrupts).Path allowed t.toReceiver c) :
    (networkFrom cfg init).Path (fun _ => True) t { t with toReceiver := c } := by
  induction h with
  | refl => exact .refl t
  | tail _ _ hstep ih => exact .tail ih trivial (.toReceiver hstep)

theorem path_toSender (cfg : Config) {c : List Frame}
    (h : (channel Corrupts).Path allowed t.toSender c) :
    (networkFrom cfg init).Path (fun _ => True) t { t with toSender := c } := by
  induction h with
  | refl => exact .refl t
  | tail _ _ hstep ih => exact .tail ih trivial (.toSender hstep)

theorem path_mail (cfg : Config) (noisy : Host → Prop) {ok : AddressedEvent → Prop}
    (hok : ∀ e, allowed e → ok (.channel e))
    (h : (channel (Mail.Garbles Corrupts)).Path allowed s.mail mail) :
    (addressed cfg noisy).Path ok s { s with mail } := by
  induction h with
  | refl => exact .refl s
  | tail _ hallowed hstep ih => exact .tail ih (hok _ hallowed) (.channel hstep)

/-! ## Strangers add nothing -/

/-- The same programs, with at least the same datagrams in flight.  The receiver
always has a frame that can turn into noise, and the sender has one as soon as
noise is more to it than a timeout. -/
structure Covered (s : Addressed) (t : State) : Prop where
  sender : t.sender = s.sender
  receiver : t.receiver = s.receiver
  toReceiver : between .sender .receiver s.mail ⊆ t.toReceiver
  toSender : between .receiver .sender s.mail ⊆ t.toSender
  feedsReceiver : t.toReceiver ≠ []
  feedsSender : s.sender.pc ≠ .synSent → t.toSender ≠ []

/-- A copy of a frame is taken, and the channel is as it was. -/
theorem Receives.copy (f : Frame) (c : List Frame) : Receives (f :: c) (.recv f.recv) c := by
  have hframe : Receives (f :: c) (.recv f.recv) ((f :: c).erase f) := .frame List.mem_cons_self
  rwa [List.erase_cons_head] at hframe

/-- The same with addresses. -/
theorem ReceivesFrom.copy (source me addr : Host) (f : Frame) (mail : List Letter) :
    ReceivesFrom (⟨source, me, f⟩ :: mail) me addr (.recv f.recv) source mail := by
  have hletter : ReceivesFrom (⟨source, me, f⟩ :: mail) me addr (.recv f.recv) source
      ((⟨source, me, f⟩ :: mail).erase ⟨source, me, f⟩) := .datagram List.mem_cons_self rfl
  rwa [List.erase_cons_head] at hletter

/-- What a program can receive here, it can receive from a channel that holds at
least the datagrams of its peer.  The channel makes a copy first, and a stranger's
datagram is a copy that is corrupted. -/
theorem ReceivesFrom.exists_receives {peer : Host} {c : List Frame}
    (h : ReceivesFrom mail me addr input addr' mail') (hmail : ∀ m ∈ mail, Sound m)
    (hpeer : ∀ host, host ≠ me → host ≠ peer → ∃ id, host = .stranger id)
    (hcovers : between peer me mail ⊆ c) (hfed : (∃ p, input = .recv (.rejected p)) → c ≠ []) :
    (∃ c', (channel Corrupts).Path (fun _ => True) c c' ∧ Receives c' input c) ∧
      ((∃ p, input = .recv (.ok p)) → c ≠ []) := by
  cases h with
  | run => exact ⟨⟨c, .refl c, .run⟩, nofun⟩
  | exit => exact ⟨⟨c, .refl c, .exit⟩, nofun⟩
  | timeout => exact ⟨⟨c, .refl c, .timeout⟩, nofun⟩
  | @datagram m hmem hdest =>
    obtain ⟨source, destination, f⟩ := m
    obtain rfl : destination = me := hdest
    have hsound := hmail _ hmem
    have htake : Receives (f :: c) (.recv f.recv) c := .copy f c
    by_cases hsource : source = peer
    · have hf : f ∈ c := hcovers (mem_between.mpr (hsource ▸ hmem))
      exact ⟨⟨f :: c, .single trivial (.duplicate hf), htake⟩, fun _ => List.ne_nil_of_mem hf⟩
    · have hstranger : ∃ id, source = .stranger id := by
        rcases hsound.apart with hne | hstranger
        · exact hpeer source hne hsource
        · exact hstranger
      obtain ⟨id, hid⟩ := hstranger
      obtain ⟨p, hp⟩ := hsound.noise id hid
      obtain rfl : f = .corrupted p := hp
      obtain ⟨g, hg⟩ := List.exists_mem_of_ne_nil c (hfed ⟨p, rfl⟩)
      exact ⟨⟨_, exists_garbled hg (.corrupt g p), htake⟩, nofun⟩

/-- In the first loop of the sender noise is a timeout. -/
theorem Sender.step_noise {cfg : SenderConfig} {x : Sender} (hpc : x.pc = .synSent) (p : Packet) :
    Sender.step cfg x (.recv (.rejected p)) = Sender.step cfg x (.recv .timeout) := by
  simp only [step, recv, hpc]
  rfl

theorem Covered.sender_step (h : Covered s t) (hsound : s.Sound) {x : Sender} {sent : List Packet}
    (hreceives : ReceivesFrom s.mail .sender s.senderAddr input addr mail)
    (hstep : s.sender.step cfg.sender input = some (x, sent)) :
    ∃ t', (network cfg).Path (fun _ => True) t t' ∧ Covered
      { s with sender := x, senderAddr := addr, mail := mail ++ sendTo .sender addr sent } t' := by
  have hcovered : ∀ t' : State, t'.sender = x → t'.receiver = t.receiver →
      t'.toReceiver = t.toReceiver ++ sent.map .intact → t'.toSender = t.toSender →
      (x.pc ≠ .synSent → t.toSender ≠ []) → Covered
        { s with sender := x, senderAddr := addr, mail := mail ++ sendTo .sender addr sent } t' := by
    intro t' hx hreceiver htoReceiver htoSender hfeeds
    refine ⟨hx, hreceiver.trans h.receiver, fun f hf => ?_, fun f hf => ?_, ?_, ?_⟩
    · rw [htoReceiver]
      rcases List.mem_append.mp (mem_between.mp hf) with hf | hf
      · exact List.mem_append_left _ (h.toReceiver (mem_between.mpr (hreceives.mem hf)))
      · obtain ⟨p, hp, heq⟩ := mem_sendTo.mp hf
        cases heq
        exact List.mem_append_right _ (List.mem_map_of_mem hp)
    · rw [htoSender]
      rcases List.mem_append.mp (mem_between.mp hf) with hf | hf
      · exact h.toSender (mem_between.mpr (hreceives.mem hf))
      · obtain ⟨p, _, heq⟩ := mem_sendTo.mp hf
        cases heq
    · rw [htoReceiver]
      exact List.append_ne_nil_of_left_ne_nil h.feedsReceiver _
    · rw [htoSender]
      exact hfeeds
  have hstart : (network cfg).Path (fun _ => True) t t := .refl t
  rw [← h.sender] at hstep
  by_cases hnoise : s.sender.pc = .synSent ∧ ∃ p, input = .recv (.rejected p)
  · -- the plain sender's receive times out
    obtain ⟨hpc, p, rfl⟩ := hnoise
    have hpc' : x.pc = .synSent := by
      by_contra hne
      rcases Sender.step_synSent hstep hne with hleft | ⟨q, hq, _⟩
      · exact hleft (h.sender ▸ hpc)
      · cases hq
    rw [Sender.step_noise (h.sender ▸ hpc)] at hstep
    exact ⟨_, path_sender hstart trivial .timeout hstep,
      hcovered _ rfl rfl rfl rfl fun hne => absurd hpc' hne⟩
  · have hfed : (∃ p, input = .recv (.rejected p)) → t.toSender ≠ [] := fun hrejected =>
      h.feedsSender fun hpc => hnoise ⟨hpc, hrejected⟩
    obtain ⟨⟨c, hcopy, htake⟩, hheard⟩ := hreceives.exists_receives hsound.mail
      (fun host hme hpeer => by cases host <;> simp_all) h.toSender hfed
    refine ⟨_, path_sender (path_toSender cfg hcopy) trivial htake hstep,
      hcovered _ rfl rfl rfl rfl fun hpc' => ?_⟩
    rcases Sender.step_synSent hstep hpc' with hpc | ⟨p, hp, _⟩
    · exact h.feedsSender (h.sender ▸ hpc)
    · exact hheard ⟨p, hp⟩

theorem Covered.receiver_step (h : Covered s t) (hsound : s.Sound) {x : Receiver}
    {sent : List Packet}
    (hreceives : ReceivesFrom s.mail .receiver s.receiverAddr input addr mail)
    (hstep : s.receiver.step cfg.receiver input = some (x, sent)) :
    ∃ t', (network cfg).Path (fun _ => True) t t' ∧ Covered
      { s with receiver := x, receiverAddr := addr, mail := mail ++ sendTo .receiver addr sent }
      t' := by
  rw [← h.receiver] at hstep
  obtain ⟨⟨c, hcopy, htake⟩, _⟩ := hreceives.exists_receives hsound.mail
    (fun host hme hpeer => by cases host <;> simp_all) h.toReceiver fun _ => h.feedsReceiver
  refine ⟨_, path_receiver (path_toReceiver cfg hcopy) trivial htake hstep,
    h.sender, rfl, fun f hf => ?_, fun f hf => ?_, h.feedsReceiver, fun hpc => ?_⟩
  · rcases List.mem_append.mp (mem_between.mp hf) with hf | hf
    · exact h.toReceiver (mem_between.mpr (hreceives.mem hf))
    · obtain ⟨p, _, heq⟩ := mem_sendTo.mp hf
      cases heq
  · rcases List.mem_append.mp (mem_between.mp hf) with hf | hf
    · exact List.mem_append_left _ (h.toSender (mem_between.mpr (hreceives.mem hf)))
    · obtain ⟨p, hp, heq⟩ := mem_sendTo.mp hf
      cases heq
      exact List.mem_append_right _ (List.mem_map_of_mem hp)
  · exact List.append_ne_nil_of_left_ne_nil (h.feedsSender hpc) _

theorem Covered.step {e : AddressedEvent} (h : Covered s t) (hsound : s.Sound)
    (hstep : AddressedStep cfg noisy s e s') :
    ∃ t', (network cfg).Path (fun _ => True) t t' ∧ Covered s' t' := by
  cases hstep with
  | sender hreceives hstep => exact h.sender_step hsound hreceives hstep
  | receiver hreceives hstep => exact h.receiver_step hsound hreceives hstep
  | channel hchannel =>
    obtain ⟨c, hpath, hmore, hcovers⟩ := exists_covering h.toReceiver hchannel
    obtain ⟨d, hpath', hmore', hcovers'⟩ := exists_covering h.toSender hchannel
    refine ⟨_, (path_toReceiver cfg hpath).trans (path_toSender cfg hpath'),
      h.sender, h.receiver, hcovers, hcovers', ?_, fun hpc => ?_⟩
    · exact List.ne_nil_of_mem (hmore (List.head_mem h.feedsReceiver))
    · exact List.ne_nil_of_mem (hmore' (List.head_mem (h.feedsSender hpc)))
  | stray =>
    refine ⟨t, .refl t, h.sender, h.receiver, fun f hf => ?_, fun f hf => ?_, h.feedsReceiver,
      h.feedsSender⟩
    · rcases List.mem_cons.mp (mem_between.mp hf) with heq | hf
      · cases heq
      · exact h.toReceiver (mem_between.mpr hf)
    · rcases List.mem_cons.mp (mem_between.mp hf) with heq | hf
      · cases heq
      · exact h.toSender (mem_between.mpr hf)

/-- The network without addresses keeps up with the one that has them. -/
theorem covered_reachable (hs : (addressed cfg noisy).Reachable s) :
    ∃ t, (network cfg).Reachable t ∧ Covered s t := by
  refine Simulation.reachable (C := addressed cfg noisy) ⟨?_, ?_⟩ hs
  · intro s hinit
    rw [show s = Addressed.start cfg from hinit]
    refine ⟨State.start cfg, rfl, rfl, rfl, fun f hf => ?_, fun f hf => ?_, ?_, fun hpc => ?_⟩
    · obtain ⟨p, hp, heq⟩ := mem_sendTo.mp (mem_between.mp hf)
      cases heq
      exact List.mem_map_of_mem hp
    · obtain ⟨p, _, heq⟩ := mem_sendTo.mp (mem_between.mp hf)
      cases heq
    · rw [State.start, Sender.start_eq]
      exact List.cons_ne_nil _ _
    · rw [Addressed.start, Sender.start_eq] at hpc
      exact absurd rfl hpc
  · intro s e s' t hreach h hstep
    exact h.step (sound_reachable hreach) hstep

/-! ## Addresses take nothing away -/

/-- Both programs send to each other.  The receiver's address counts only while it
sends without being asked. -/
structure Addressed.Aimed (s : Addressed) : Prop where
  senderAddr : s.senderAddr = .receiver
  receiverAddr : s.receiver.pc = .synReceived → s.receiverAddr = .sender

/-- The same programs, with at most the same datagrams in flight. -/
structure Covers (s : Addressed) (t : State) : Prop where
  sender : t.sender = s.sender
  receiver : t.receiver = s.receiver
  toReceiver : t.toReceiver ⊆ between .sender .receiver s.mail
  toSender : t.toSender ⊆ between .receiver .sender s.mail

/-- What a program can receive from a channel, it can receive here, and its address
is its peer's afterwards. -/
theorem Receives.exists_receivesFrom {peer : Host} {c c' : List Frame}
    (h : Receives c input c') (addr : Host) (hcovers : c ⊆ between peer me mail) :
    c' ⊆ c ∧ ∃ mail' addr', (channel (Mail.Garbles Corrupts)).Path (fun _ => True) mail mail' ∧
      ReceivesFrom mail' me addr input addr' mail ∧
      (addr' = peer ∨ addr' = addr ∧ ∀ p, input ≠ .recv (.ok p)) := by
  cases h with
  | run => exact ⟨fun _ h => h, mail, addr, .refl mail, .run, .inr ⟨rfl, nofun⟩⟩
  | exit => exact ⟨fun _ h => h, mail, addr, .refl mail, .exit, .inr ⟨rfl, nofun⟩⟩
  | timeout => exact ⟨fun _ h => h, mail, addr, .refl mail, .timeout, .inr ⟨rfl, nofun⟩⟩
  | @frame f hmem =>
    have hm : (⟨peer, me, f⟩ : Letter) ∈ mail := mem_between.mp (hcovers hmem)
    exact ⟨List.erase_subset, _, peer, .single trivial (.duplicate hm), .copy peer me addr f mail,
      .inl rfl⟩

theorem Covers.step {e : Event} (noisy : Host → Prop) (haimed : s.Aimed) (h : Covers s t)
    (hstep : Step cfg t e t') :
    ∃ s', (addressed cfg noisy).Path AddressedEvent.Own s s' ∧ s'.Aimed ∧ Covers s' t' := by
  have hown : ∀ e : ChannelEvent, True → AddressedEvent.Own (.channel e) := fun _ _ => trivial
  cases hstep with
  | @sender input c x sent hreceives hstep =>
    rw [h.sender] at hstep
    obtain ⟨hless, mail, addr, hcopy, htake, haddr⟩ :=
      hreceives.exists_receivesFrom s.senderAddr h.toSender
    obtain rfl : addr = .receiver := by
      rcases haddr with heq | ⟨heq, _⟩
      · exact heq
      · exact heq.trans haimed.senderAddr
    have hpath := path_mail cfg noisy hown hcopy
    have hsent : AddressedEvent.Own (.sender input) := trivial
    refine ⟨_, .tail hpath hsent (.sender htake hstep), ⟨rfl, haimed.receiverAddr⟩, rfl, h.receiver,
      fun f hf => mem_between.mpr ?_, fun f hf => mem_between.mpr ?_⟩
    · rcases List.mem_append.mp hf with hf | hf
      · exact List.mem_append_left _ (mem_between.mp (h.toReceiver hf))
      · obtain ⟨p, hp, rfl⟩ := List.mem_map.mp hf
        exact List.mem_append_right _ (mem_sendTo.mpr ⟨p, hp, rfl⟩)
    · exact List.mem_append_left _ (mem_between.mp (h.toSender (hless hf)))
  | @receiver input c x sent hreceives hstep =>
    rw [h.receiver] at hstep
    obtain ⟨hless, mail, addr, hcopy, htake, haddr⟩ :=
      hreceives.exists_receivesFrom s.receiverAddr h.toReceiver
    have hpath := path_mail cfg noisy hown hcopy
    have hsent : AddressedEvent.Own (.receiver input) := trivial
    refine ⟨_, .tail hpath hsent (.receiver htake hstep), ⟨haimed.senderAddr, fun hpc => ?_⟩,
      h.sender, rfl, fun f hf => mem_between.mpr ?_, fun f hf => mem_between.mpr ?_⟩
    · rcases haddr with heq | ⟨heq, halone⟩
      · exact heq
      · exact heq.trans (haimed.receiverAddr ((Receiver.step_alone hstep halone).2.1 hpc))
    · exact List.mem_append_left _ (mem_between.mp (h.toReceiver (hless hf)))
    · rcases List.mem_append.mp hf with hf | hf
      · exact List.mem_append_left _ (mem_between.mp (h.toSender hf))
      · obtain ⟨p, hp, rfl⟩ := List.mem_map.mp hf
        have haimed' : addr = .sender := by
          rcases haddr with heq | ⟨heq, halone⟩
          · exact heq
          · refine heq.trans (haimed.receiverAddr ?_)
            by_contra hpc
            rw [(Receiver.step_alone hstep halone).2.2 hpc] at hp
            cases hp
        exact List.mem_append_right _ (mem_sendTo.mpr ⟨p, hp, haimed' ▸ rfl⟩)
  | toReceiver hchannel =>
    obtain ⟨mail, hpath, hmore, hcovers⟩ := exists_covered h.toReceiver hchannel
    refine ⟨_, path_mail cfg noisy hown hpath, ⟨haimed.senderAddr, haimed.receiverAddr⟩, h.sender,
      h.receiver, hcovers, fun f hf => mem_between.mpr ?_⟩
    exact hmore (mem_between.mp (h.toSender hf))
  | toSender hchannel =>
    obtain ⟨mail, hpath, hmore, hcovers⟩ := exists_covered h.toSender hchannel
    refine ⟨_, path_mail cfg noisy hown hpath, ⟨haimed.senderAddr, haimed.receiverAddr⟩, h.sender,
      h.receiver, fun f hf => mem_between.mpr ?_, hcovers⟩
    exact hmore (mem_between.mp (h.toReceiver hf))

/-- Two programs that send to each other can do everything that they can do
without addresses. -/
theorem Covers.path (noisy : Host → Prop) (haimed : s.Aimed) (h : Covers s t)
    (hpath : (network cfg).Path (fun _ => True) t t') :
    ∃ s', (addressed cfg noisy).Path AddressedEvent.Own s s' ∧ s'.Aimed ∧ Covers s' t' := by
  induction hpath with
  | refl => exact ⟨s, .refl s, haimed, h⟩
  | tail _ _ hstep ih =>
    obtain ⟨u, hpath, haimed', h'⟩ := ih
    obtain ⟨u', hrest, haimed'', h''⟩ := h'.step noisy haimed' hstep
    exact ⟨u', hpath.trans hrest, haimed'', h''⟩

/-! ## The two networks have the same states -/

/-- A channel can lose what the other one does not hold. -/
theorem exists_same {c l : List Frame} (h : c ⊆ l) :
    ∃ l', (channel Corrupts).Path (· = .lose) l l' ∧ ∀ f, f ∈ l' ↔ f ∈ c := by
  obtain ⟨l', hpath, hkept⟩ := exists_keep Corrupts (· ∈ c) l
  exact ⟨l', hpath, fun f => (hkept f).trans ⟨And.right, fun hf => ⟨h hf, hf⟩⟩⟩

theorem aimed_start (cfg : Config) : (Addressed.start cfg).Aimed := ⟨rfl, nofun⟩

theorem covers_start (cfg : Config) : Covers (Addressed.start cfg) (State.start cfg) := by
  refine ⟨rfl, rfl, fun f hf => mem_between.mpr ?_, nofun⟩
  obtain ⟨p, hp, rfl⟩ := List.mem_map.mp hf
  exact mem_sendTo.mpr ⟨p, hp, rfl⟩

/-- The network with addresses keeps up with the one that has none. -/
theorem covers_reachable (noisy : Host → Prop) (ht : (network cfg).Reachable t) :
    ∃ s, (addressed cfg noisy).Reachable s ∧ s.Aimed ∧ Covers s t := by
  refine Simulation.reachable (C := network cfg) (R := fun t s => s.Aimed ∧ Covers s t) ⟨?_, ?_⟩ ht
  · intro t hinit
    rw [show t = State.start cfg from hinit]
    exact ⟨_, rfl, aimed_start cfg, covers_start cfg⟩
  · intro t e t' s _ h hstep
    obtain ⟨s', hpath, h'⟩ := h.2.step noisy h.1 hstep
    exact ⟨s', hpath.mono fun _ _ => trivial, h'⟩

/-- **Strangers and addresses make no difference to what can happen.**  Wherever
strangers send their datagrams, both programs and the datagrams between them go
through the states of the network without addresses, and through all of them. -/
theorem strangers_refine (cfg : Config) (noisy : Host → Prop) :
    (∀ s, (addressed cfg noisy).Reachable s →
      ∃ t, (network cfg).Reachable t ∧ t.Same s.plain) ∧
    (∀ t, (network cfg).Reachable t →
      ∃ s, (addressed cfg noisy).Reachable s ∧ t.Same s.plain) := by
  constructor
  · intro s hs
    obtain ⟨t, ht, h⟩ := covered_reachable hs
    obtain ⟨c, hpath, hc⟩ := exists_same h.toReceiver
    obtain ⟨d, hpath', hd⟩ := exists_same h.toSender
    exact ⟨_, (ht.path (path_toReceiver cfg hpath)).path (path_toSender cfg hpath'),
      h.sender, h.receiver, hc, hd⟩
  · intro t ht
    obtain ⟨s, hs, _, h⟩ := covers_reachable noisy ht
    obtain ⟨mail, hlose, hkept⟩ := exists_keep (Mail.Garbles Corrupts)
      (fun m : Letter => (m.source = .sender → m.content ∈ t.toReceiver) ∧
        (m.source = .receiver → m.content ∈ t.toSender)) s.mail
    have hpath : (addressed cfg noisy).Path (fun _ => True) s { s with mail } :=
      path_mail cfg noisy (fun _ _ => trivial) hlose
    refine ⟨_, hs.path hpath, h.sender, h.receiver, fun f => ?_, fun f => ?_⟩
    · refine Iff.trans ⟨fun hf => ?_, fun hf => ?_⟩ mem_between.symm
      · exact (hkept _).mpr ⟨mem_between.mp (h.toReceiver hf), fun _ => hf, nofun⟩
      · exact ((hkept _).mp hf).2.1 rfl
    · refine Iff.trans ⟨fun hf => ?_, fun hf => ?_⟩ mem_between.symm
      · exact (hkept _).mpr ⟨mem_between.mp (h.toSender hf), nofun, fun _ => hf⟩
      · exact ((hkept _).mp hf).2.2 rfl

end NetLabs.Rtp
