import NetLabs.Rtp.SenderWindow
import NetLabs.Rtp.Strangers

/-!
# A sender that has lost its peer

The sender writes to the source of the datagram that came last.  After one
datagram from a stranger it writes to the stranger, and the receiver writes only
when it is written to.

* `Sender.step_alone`: without an intact packet the sender stays in its loop.
* `CutOff`: the sender writes to a stranger, and nothing is on its way to either
  program.  No step of the programs or the network leads out of it.
* `stray_cuts_off`: one datagram from a stranger is enough to get there.
-/

namespace NetLabs.Rtp

open NetLabs.Lib

/-- At one of the calls of `recv_packet`. -/
def SenderPc.receives : SenderPc → Prop
  | .synSent | .ackSent | .transfer | .finSent => True
  | .established | .transferred | .closed => False

/-- At the call of `recv_packet` in a loop. -/
def SenderPc.loops : SenderPc → Prop
  | .synSent | .transfer | .finSent => True
  | .ackSent | .established | .transferred | .closed => False

namespace Sender

variable {cfg : SenderConfig} {x x' : Sender} {input : Input} {sent : List Packet}

/-- The loop of `transfer_data` has packets left to send. -/
def Unfinished (cfg : SenderConfig) (x : Sender) : Prop := x.pc = .transfer → x.shift < cfg.npacket

theorem transferLoop_unfinished (x : Sender) : Unfinished cfg (transferLoop cfg x).1 := by
  intro hpc
  unfold transferLoop at hpc ⊢
  by_cases hmore : x.shift < cfg.npacket
  · rw [if_pos hmore]
    split <;> exact hmore
  · rw [if_neg hmore] at hpc
    cases hpc

theorem transferRecv_unfinished (x : Sender) (r : Recv) :
    Unfinished cfg (transferRecv cfg x r).1 := by
  cases r with
  | timeout => exact transferLoop_unfinished x
  | rejected p => exact transferLoop_unfinished x
  | ok p =>
    rcases transferRecv_ok cfg x p with heq | ⟨_, _, heq⟩ <;> rw [heq] <;>
      exact transferLoop_unfinished _

theorem step_unfinished (h : step cfg x input = some (x', sent)) (hx : Unfinished cfg x) :
    Unfinished cfg x' := by
  obtain ⟨_, hmove⟩ := move_of_step cfg h
  cases hmove with
  | exit | synRetry | finRetry => exact hx
  | synAccept | confirm | fin | finAccept => exact nofun
  | enter => exact transferLoop_unfinished _
  | transfer => exact transferRecv_unfinished _ _

theorem transferLoop_pc (hmore : x.shift < cfg.npacket) :
    (transferLoop cfg x).1.pc = .transfer := by
  unfold transferLoop
  rw [if_pos hmore]
  split <;> rfl

/-- Without an intact packet the sender does not return, and it stays in its loop. -/
theorem step_alone (h : step cfg x input = some (x', sent)) (halone : ∀ p, input ≠ .recv (.ok p))
    (hx : Unfinished cfg x) :
    (x'.pc = .closed → x.pc = .closed) ∧ (x.pc.loops → x'.pc = x.pc) := by
  obtain ⟨_, hmove⟩ := move_of_step cfg h
  cases hmove with
  | exit | synRetry | finRetry => exact ⟨id, fun _ => rfl⟩
  | synAccept | finAccept => exact absurd rfl (halone _)
  | confirm hpc => exact ⟨nofun, by rw [hpc]; exact False.elim⟩
  | enter hpc =>
    refine ⟨fun hclosed => ?_, by rw [hpc]; exact False.elim⟩
    rcases (transferLoop_phase cfg { x with
      wbase := x.sqn, shift := 0, window := List.replicate cfg.wsize false }).1 with hpc' | hpc' <;>
      cases hclosed.symm.trans hpc'
  | @transfer r hpc =>
    have hstays : (transferRecv cfg x r).1.pc = .transfer := by
      cases r with
      | ok p => exact absurd rfl (halone p)
      | timeout => exact transferLoop_pc (hx hpc)
      | rejected p => exact transferLoop_pc (hx hpc)
    exact ⟨fun hclosed => (nomatch hclosed.symm.trans hstays), fun _ => hstays.trans hpc.symm⟩
  | fin hpc => exact ⟨nofun, by rw [hpc]; exact False.elim⟩

end Sender

variable {cfg : Config} {noisy : Host → Prop} {s t : Addressed}

theorem unfinished_reachable (hs : (addressed cfg noisy).Reachable s) :
    Sender.Unfinished cfg.sender s.sender := by
  refine hs.invariant (P := fun s : Addressed => Sender.Unfinished cfg.sender s.sender) ?_ ?_
  · intro s hinit
    rw [show s = Addressed.start cfg from hinit, Addressed.start, Sender.start_eq]
    intro hpc
    cases hpc
  · intro s e s' _ h hstep
    cases hstep with
    | sender _ hstep => exact Sender.step_unfinished hstep h
    | receiver | channel | stray => exact h

/-! ## Cut off from the receiver -/

/-- The sender writes to a stranger, the receiver writes to the sender only when it
is written to, and nothing is on its way to either of them. -/
structure CutOff (cfg : Config) (s : Addressed) : Prop where
  senderAddr : ∃ id, s.senderAddr = .stranger id
  receiverAddr : s.receiver.pc = .synReceived → ∃ id, s.receiverAddr = .stranger id
  mail : ∀ m ∈ s.mail, ∃ id, m.destination = .stranger id
  unfinished : Sender.Unfinished cfg.sender s.sender

/-- A program that nothing is on its way to gets no datagram. -/
theorem ReceivesFrom.alone {mail mail' : List Letter} {me addr addr' : Host} {input : Input}
    (h : ReceivesFrom mail me addr input addr' mail')
    (hmail : ∀ m ∈ mail, ∃ id, m.destination = .stranger id) (hme : ∀ id, me ≠ .stranger id) :
    addr' = addr ∧ mail' = mail ∧ ∀ p, input ≠ .recv (.ok p) := by
  cases h with
  | run | exit | timeout => exact ⟨rfl, rfl, nofun⟩
  | datagram hmem hdest =>
    obtain ⟨id, hid⟩ := hmail _ hmem
    exact absurd (hdest.symm.trans hid) (hme id)

theorem CutOff.step {e : AddressedEvent} (h : CutOff cfg s) (hown : e.Own)
    (hstep : AddressedStep cfg noisy s e t) :
    CutOff cfg t ∧ (t.sender.pc = .closed → s.sender.pc = .closed) ∧
      (s.sender.pc.loops → t.sender.pc = s.sender.pc) := by
  cases hstep with
  | sender hreceives hstep =>
    obtain ⟨rfl, rfl, halone⟩ := hreceives.alone h.mail nofun
    exact ⟨⟨h.senderAddr, h.receiverAddr, forall_mem_sendTo h.mail fun _ _ => h.senderAddr,
      Sender.step_unfinished hstep h.unfinished⟩, Sender.step_alone hstep halone h.unfinished⟩
  | receiver hreceives hstep =>
    obtain ⟨rfl, rfl, halone⟩ := hreceives.alone h.mail nofun
    obtain ⟨_, hsyn, hquiet⟩ := Receiver.step_alone hstep halone
    refine ⟨⟨h.senderAddr, fun hpc => h.receiverAddr (hsyn hpc),
      forall_mem_sendTo h.mail fun p hp => h.receiverAddr ?_, h.unfinished⟩, id, fun _ => rfl⟩
    by_contra hpc
    rw [hquiet hpc] at hp
    cases hp
  | channel hchannel =>
    have hmail := hchannel.forall_hosts (P := fun _ destination => ∃ id, destination = .stranger id)
      h.mail
    exact ⟨⟨h.senderAddr, h.receiverAddr, hmail, h.unfinished⟩, id, fun _ => rfl⟩
  | stray => exact hown.elim

/-- As long as the strangers are silent, the sender does not return, and if it is in
a loop it stays there. -/
theorem CutOff.dead_end (h : CutOff cfg s) (hpc : s.sender.pc ≠ .closed)
    (hpath : (addressed cfg noisy).Path AddressedEvent.Own s t) :
    t.sender.pc ≠ .closed ∧ (s.sender.pc.loops → t.sender.pc = s.sender.pc) := by
  have ht : CutOff cfg t ∧ t.sender.pc ≠ .closed ∧
      (s.sender.pc.loops → t.sender.pc = s.sender.pc) := by
    refine hpath.invariant (P := fun u => CutOff cfg u ∧ u.sender.pc ≠ .closed ∧
      (s.sender.pc.loops → u.sender.pc = s.sender.pc)) ?_ ⟨h, hpc, fun _ => rfl⟩
    intro u e v hu hown hstep
    obtain ⟨hcut, hopen, hstays⟩ := hu
    obtain ⟨hcut', hclosed, hstays'⟩ := hcut.step hown hstep
    refine ⟨hcut', fun hv => hopen (hclosed hv), fun hloops => ?_⟩
    have hu := hstays hloops
    exact (hstays' (hu ▸ hloops)).trans hu
  exact ht.2

/-- At a receive the sender takes whatever outcome there is. -/
theorem Sender.exists_step (cfg : SenderConfig) {x : Sender} (hpc : x.pc.receives)
    (hrunning : x.fatal = false) (r : Recv) :
    ∃ x' sent, Sender.step cfg x (.recv r) = some (x', sent) := by
  simp only [step, hrunning, Bool.false_eq_true, if_false, recv]
  cases hx : x.pc with
  | synSent | ackSent | transfer | finSent => exact ⟨_, _, rfl⟩
  | established | transferred | closed =>
    rw [hx] at hpc
    exact hpc.elim

/-- **One datagram cuts the sender off.**  Whenever the sender waits for a datagram
and the receiver is not repeating its SYN|ACK to it, one datagram that is no RTP
packet, from any stranger, and the loss of what is in flight are enough: unless
strangers write again, the sender never returns, and it never leaves the loop that
it is in.  Nothing has happened to the receiver. -/
theorem stray_cuts_off (cfg : Config) (noisy : Host → Prop) (hnoisy : noisy .sender)
    {s : Addressed} (hs : (addressed cfg noisy).Reachable s) (hrunning : s.sender.fatal = false)
    (hpc : s.sender.pc.receives)
    (hreceiver : s.receiver.pc = .synReceived → s.receiverAddr ≠ .sender) (id : Nat) (p : Packet) :
    ∃ s₁ s₂ t, AddressedStep cfg noisy s (.stray id .sender p) s₁ ∧
      AddressedStep cfg noisy s₁ (.sender (.recv (.rejected p))) s₂ ∧
      (addressed cfg noisy).Path (· = .channel .lose) s₂ t ∧ t.receiver = s.receiver ∧
      ∀ u, (addressed cfg noisy).Path AddressedEvent.Own t u →
        u.sender.pc ≠ .closed ∧ (s.sender.pc.loops → u.sender.pc = s.sender.pc) := by
  have hsound := sound_reachable hs
  have hunfinished := unfinished_reachable hs
  obtain ⟨x, sent, hstep⟩ := Sender.exists_step cfg.sender hpc hrunning (.rejected p)
  obtain ⟨hreturns, hstays⟩ := Sender.step_alone hstep nofun hunfinished
  have hreceives : ReceivesFrom (⟨.stranger id, .sender, .corrupted p⟩ :: s.mail) .sender
      s.senderAddr (.recv (.rejected p)) (.stranger id) s.mail :=
    .copy (.stranger id) .sender s.senderAddr (.corrupted p) s.mail
  obtain ⟨mail, hlose, hkept⟩ := exists_keep (Mail.Garbles Corrupts)
    (fun m : Letter => ∃ id, m.destination = .stranger id)
    (s.mail ++ sendTo .sender (.stranger id) sent)
  have hcut : CutOff cfg
      { s with sender := x, senderAddr := .stranger id, mail } := by
    refine ⟨⟨id, rfl⟩, fun hsyn => ?_, fun m hm => ((hkept m).mp hm).2,
      Sender.step_unfinished hstep hunfinished⟩
    cases haddr : s.receiverAddr with
    | sender => exact absurd haddr (hreceiver hsyn)
    | receiver => exact absurd haddr (hsound.receiverAddr (by rw [hsyn]; nofun))
    | stranger id => exact ⟨id, rfl⟩
  refine ⟨_, _, _, .stray hnoisy, .sender hreceives hstep,
    path_mail cfg noisy (fun e he => congrArg _ he) hlose, rfl, fun u hpath => ?_⟩
  have hopen : x.pc ≠ .closed := fun hclosed => by
    rw [hreturns hclosed] at hpc
    exact hpc
  obtain ⟨hnever, hloop⟩ := hcut.dead_end hopen hpath
  refine ⟨hnever, fun hloops => ?_⟩
  have hx := hstays hloops
  exact (hloop (hx ▸ hloops)).trans hx

/-- It can happen right at the start. -/
theorem stray_cuts_off_start :
    ∃ t, (addressed (oneByte .gbn) (· = .sender)).Reachable t ∧ t.receiver = Receiver.start ∧
      ∀ u, (addressed (oneByte .gbn) (· = .sender)).Path AddressedEvent.Own t u →
        u.sender.pc = .synSent := by
  have hs : (addressed (oneByte .gbn) (· = .sender)).Reachable (Addressed.start (oneByte .gbn)) :=
    .init rfl
  obtain ⟨s₁, s₂, t, hstray, hreceive, hlose, hreceiver, hnever⟩ :=
    stray_cuts_off (oneByte .gbn) (· = .sender) rfl hs rfl trivial nofun 0 ⟨0, 0, []⟩
  exact ⟨t, (System.Reachable.step (.step hs hstray) hreceive).path hlose, hreceiver,
    fun u hpath => (hnever u hpath).2 trivial⟩

end NetLabs.Rtp
