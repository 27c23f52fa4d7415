import NetLabs.Rtp.Completion
import NetLabs.Rtp.Strangers

/-!
# Strangers at the receiver's port

The port of the receiver is on its command line, and the one of the sender is not
known to others.  When strangers write to the receiver only, the sender always
writes to the receiver, and the receiver answers each datagram at its source.  It
sends without being asked only while it repeats its SYN|ACK.

* `Trusted`: what reaches the sender comes from the receiver.
* `Addressed.Answerable`: a sender at its single extra receive can still learn that
  its third handshake is missing.
* `Forsaken` is the invariant of the runs in which it does not.
* `strays_at_receiver_iff`: otherwise the strangers keep no connection from being
  completed.  Both programs run in one mode, and in selective repeat the receiver's
  window is at most `2 ^ 30` (`Config.Compatible`).
-/

namespace NetLabs.Rtp

open NetLabs.Lib

variable {cfg : Config} {noisy : Host → Prop} {s s' u : Addressed} {t t' : State}

/-! ## Completion depends on the intact packets in flight -/

/-- More intact packets in flight do no harm. -/
theorem Completable.mono (h : Completable cfg t) (hsender : t'.sender = t.sender)
    (hreceiver : t'.receiver = t.receiver)
    (htoReceiver : ∀ p, .intact p ∈ t.toReceiver → .intact p ∈ t'.toReceiver)
    (htoSender : ∀ p, .intact p ∈ t.toSender → .intact p ∈ t'.toSender) :
    Completable cfg t' where
  sender := by rw [hsender]; exact h.sender
  receiver := by rw [hreceiver]; exact h.receiver
  handshake := by
    rw [hsender, hreceiver]
    exact fun hpast hwaits => htoReceiver _ (h.handshake hpast hwaits)
  data k hk := by
    rw [hsender, hreceiver]
    intro hacked
    rcases h.data k hk hacked with ⟨j, hj, hcovers, p, hp, hack⟩ | hserves
    · exact .inl ⟨j, hj, hcovers, p, htoSender p hp, hack⟩
    · exact .inr hserves
  teardown := by
    rw [State.finAck, hsender, hreceiver]
    exact fun hclosed => (h.teardown hclosed).imp id (htoSender _)

/-- Every intact packet can be lost, and a channel that was not empty still has
something to corrupt. -/
theorem exists_prune {c l : List Frame} (h : c ⊆ l) :
    ∃ l', (channel Corrupts).Path (fun _ => True) l l' ∧ c ⊆ l' ∧ (l ≠ [] → l' ≠ []) ∧
      ∀ p, .intact p ∈ l' → .intact p ∈ c := by
  by_cases hempty : l = []
  · rw [hempty]
    have hc : c = [] := List.subset_nil.mp (hempty ▸ h)
    exact ⟨[], .refl _, hc ▸ fun _ h => h, fun hne => absurd rfl hne, nofun⟩
  · obtain ⟨f, hf⟩ := List.exists_mem_of_ne_nil l hempty
    obtain ⟨l', hlose, hkept⟩ := exists_keep Corrupts
      (fun g => g ∈ c ∨ g = .corrupted ⟨0, 0, []⟩) (.corrupted ⟨0, 0, []⟩ :: l)
    have hpath : (channel Corrupts).Path (fun _ => True) l (.corrupted ⟨0, 0, []⟩ :: l) :=
      exists_garbled hf (.corrupt f _)
    refine ⟨l', hpath.trans (hlose.mono fun _ _ => trivial), fun g hg => ?_, fun _ => ?_,
      fun p hp => ?_⟩
    · exact (hkept g).mpr ⟨List.mem_cons_of_mem _ (h hg), .inl hg⟩
    · exact List.ne_nil_of_mem ((hkept _).mpr ⟨List.mem_cons_self, .inr rfl⟩)
    · rcases ((hkept _).mp hp).2 with hp | heq
      · exact hp
      · cases heq

/-- The plain network reaches a state with the same programs and the same intact
packets in flight, from which it keeps up. -/
theorem covered_intact (hs : (addressed cfg noisy).Reachable s) :
    ∃ t, (network cfg).Reachable t ∧ Covered s t ∧
      (∀ p, .intact p ∈ t.toReceiver → .intact p ∈ s.plain.toReceiver) ∧
      ∀ p, .intact p ∈ t.toSender → .intact p ∈ s.plain.toSender := by
  obtain ⟨t, ht, h⟩ := covered_reachable hs
  obtain ⟨c, hpath, hcovers, hfeeds, hintact⟩ := exists_prune h.toReceiver
  obtain ⟨d, hpath', hcovers', hfeeds', hintact'⟩ := exists_prune h.toSender
  exact ⟨_, (ht.path (path_toReceiver cfg hpath)).path (path_toSender cfg hpath'),
    ⟨h.sender, h.receiver, hcovers, hcovers', hfeeds h.feedsReceiver,
      fun hpc => hfeeds' (h.feedsSender hpc)⟩, hintact, hintact'⟩

theorem Covered.path {allowed : AddressedEvent → Prop} (hs : (addressed cfg noisy).Reachable s)
    (h : Covered s t) (hpath : (addressed cfg noisy).Path allowed s s') :
    ∃ t', (network cfg).Path (fun _ => True) t t' ∧ Covered s' t' := by
  induction hpath with
  | refl => exact ⟨t, .refl t, h⟩
  | tail hpath _ hstep ih =>
    obtain ⟨v, hrest, hv⟩ := ih
    obtain ⟨w, hlast, hw⟩ := hv.step (sound_reachable (hs.path hpath)) hstep
    exact ⟨w, hrest.trans hlast, hw⟩

/-! ## The sender is out of reach -/

/-- The sender writes to the receiver, and what reaches it comes from there. -/
structure Trusted (s : Addressed) : Prop where
  senderAddr : s.senderAddr = .receiver
  mail : ∀ m ∈ s.mail, m.destination = .sender → m.source = .receiver

theorem trusted_reachable (hs : (addressed cfg (· = .receiver)).Reachable s) : Trusted s := by
  refine hs.invariant (P := Trusted) ?_ ?_
  · intro s hinit
    rw [show s = Addressed.start cfg from hinit]
    refine ⟨rfl, fun m hm hdest => ?_⟩
    obtain ⟨p, _, rfl⟩ := mem_sendTo.mp hm
    cases hdest
  · intro s e s' hreach h hstep
    cases hstep with
    | @sender input addr mail x sent hreceives hstep =>
      have haddr : addr = .receiver := by
        cases hreceives with
        | run | exit | timeout => exact h.senderAddr
        | datagram hmem hdest => exact h.mail _ hmem hdest
      refine ⟨haddr,
        forall_mem_sendTo (fun m hm => h.mail m (hreceives.mem hm)) fun p _ hdest => ?_⟩
      exact absurd (hdest.symm.trans haddr) nofun
    | receiver hreceives hstep =>
      exact ⟨h.senderAddr,
        forall_mem_sendTo (fun m hm => h.mail m (hreceives.mem hm)) fun _ _ _ => rfl⟩
    | channel hchannel =>
      exact ⟨h.senderAddr, hchannel.forall_hosts
        (P := fun source destination => destination = .sender → source = .receiver) h.mail⟩
    | stray hnoisy =>
      refine ⟨h.senderAddr, fun m hm hdest => ?_⟩
      rcases List.mem_cons.mp hm with rfl | hm
      · exact absurd (hdest.symm.trans hnoisy) nofun
      · exact h.mail m hm hdest

/-! ## The way back to the receiver's peer -/

/-- A datagram of the sender that is damaged makes the receiver repeat its SYN|ACK,
to the sender. -/
theorem letter_path (noisy : Host → Prop) (hrelease : cfg.Release)
    (htries : s.receiver.tries ≤ sendTr) (hsender : s.senderAddr = .receiver) (hpc : s.receiver.pc = .synReceived)
    (hrunning : s.receiver.fatal = false) {f : Frame}
    (hmem : ⟨.sender, .receiver, f⟩ ∈ s.mail) :
    ∃ t, (addressed cfg noisy).Path AddressedEvent.Own s t ∧ t.Aimed ∧ t.sender = s.sender ∧
      t.receiver = s.receiver ∧ s.mail ⊆ t.mail := by
  have hstep : Receiver.step cfg.receiver s.receiver (.recv (.rejected ⟨0, 0, []⟩)) =
      some (s.receiver, [controlPacket s.receiver.sqn (rtpAck ||| rtpSyn)]) := by
    rw [← Receiver.step_synAck_timeout hrelease.receiver htries hpc hrunning]
    simp only [Receiver.step, Receiver.recv, hpc]
    rfl
  have hpath : (addressed cfg noisy).Path AddressedEvent.Own s
      { s with mail := ⟨.sender, .receiver, .corrupted ⟨0, 0, []⟩⟩ :: s.mail } :=
    path_mail cfg noisy (fun _ _ => trivial) (exists_garbled hmem (.content (.corrupt f _)))
  have htake : ReceivesFrom (⟨.sender, .receiver, .corrupted ⟨0, 0, []⟩⟩ :: s.mail) .receiver
      s.receiverAddr (.recv (.rejected ⟨0, 0, []⟩)) .sender s.mail :=
    .copy .sender .receiver s.receiverAddr (.corrupted ⟨0, 0, []⟩) s.mail
  have hown : AddressedEvent.Own (.receiver (.recv (.rejected ⟨0, 0, []⟩))) := trivial
  exact ⟨_, .tail hpath hown (.receiver htake hstep), ⟨hsender, fun _ => rfl⟩, rfl, rfl,
    List.subset_append_left _ _⟩

/-- The SYN|ACK that comes once more is answered, so that a datagram is on its way. -/
theorem confirm_path (cfg : Config) (noisy : Host → Prop) (hpc : s.sender.pc = .ackSent)
    (hrunning : s.sender.fatal = false) {p : Packet}
    (hmem : ⟨.receiver, .sender, .intact p⟩ ∈ s.mail) (hflags : p.flags = rtpAck ||| rtpSyn)
    (hseq : p.seqNum = s.sender.sqn) :
    ∃ t, (addressed cfg noisy).Path AddressedEvent.Own s t ∧ t.senderAddr = .receiver ∧
      t.sender = { s.sender with pc := .established } ∧ t.receiver = s.receiver ∧
      s.mail ⊆ t.mail ∧
      ⟨.sender, .receiver, .intact (controlPacket s.sender.sqn rtpAck)⟩ ∈ t.mail := by
  have hstep : Sender.step cfg.sender s.sender (.recv (.ok p)) =
      some ({ s.sender with pc := .established }, [controlPacket s.sender.sqn rtpAck]) := by
    simp [Sender.step, Sender.recv, hpc, hrunning, hflags, hseq]
  have hpath : (addressed cfg noisy).Path AddressedEvent.Own s
      { s with mail := ⟨.receiver, .sender, .intact p⟩ :: s.mail } :=
    .single (show AddressedEvent.Own (.channel .duplicate) from trivial)
      (.channel (.duplicate hmem))
  have htake : ReceivesFrom (⟨.receiver, .sender, .intact p⟩ :: s.mail) .sender s.senderAddr
      (.recv (.ok p)) .receiver s.mail := .copy .receiver .sender s.senderAddr (.intact p) s.mail
  have hown : AddressedEvent.Own (.sender (.recv (.ok p))) := trivial
  exact ⟨_, .tail hpath hown (.sender htake hstep), rfl, rfl, rfl, List.subset_append_left _ _,
    List.mem_append_right _ (mem_sendTo.mpr ⟨_, List.mem_singleton_self _, rfl⟩)⟩

/-- A sender at its single extra receive can still be told that its third handshake
is missing: the receiver tells it, a datagram of its own makes the receiver do so, or
the SYN|ACK is on its way. -/
def Addressed.Answerable (s : Addressed) : Prop :=
  s.sender.pc = .ackSent → s.receiver.pc = .synReceived →
    s.receiverAddr = .sender ∨ (∃ f, ⟨.sender, .receiver, f⟩ ∈ s.mail) ∨
      ∃ p, ⟨.receiver, .sender, .intact p⟩ ∈ s.mail ∧ p.flags = rtpAck ||| rtpSyn ∧
        p.seqNum = s.sender.sqn

/-- What can be completed without addresses can be brought to where both programs
write to each other. -/
theorem aim_path (hrelease : cfg.Release)
    (hs : (addressed cfg (· = .receiver)).Reachable s) (h : Completable cfg s.plain)
    (hanswerable : s.Answerable) :
    ∃ t, (addressed cfg (· = .receiver)).Path AddressedEvent.Own s t ∧ t.Aimed ∧
      Completable cfg t.plain := by
  have hsenderAddr := (trusted_reachable hs).senderAddr
  obtain ⟨v, hv, hcovered⟩ := covered_reachable hs
  obtain ⟨hsenderTries, htries⟩ := tries_le hrelease hv
  rw [hcovered.sender] at hsenderTries
  rw [hcovered.receiver] at htries
  by_cases haimed : s.receiver.pc = .synReceived → s.receiverAddr = .sender
  · exact ⟨s, .refl s, ⟨hsenderAddr, haimed⟩, h⟩
  obtain ⟨hpc, haddr⟩ := Classical.not_imp.mp haimed
  -- one datagram of the sender is enough
  have hletter : ∀ u : Addressed, u.senderAddr = .receiver → u.receiver = s.receiver →
      Completable cfg u.plain → (∃ f, ⟨.sender, .receiver, f⟩ ∈ u.mail) →
      ∃ t, (addressed cfg (· = .receiver)).Path AddressedEvent.Own u t ∧ t.Aimed ∧
        Completable cfg t.plain := by
    intro u hu hreceiver hcompletable hmem
    obtain ⟨f, hmem⟩ := hmem
    have hrunning : u.receiver.fatal = false := hcompletable.receiver
    obtain ⟨t, hpath, hready, hsame, hsame', hmore⟩ := letter_path (· = .receiver)
      hrelease (hreceiver ▸ htries) hu (hreceiver ▸ hpc) hrunning hmem
    exact ⟨t, hpath, hready, hcompletable.mono hsame hsame'
      (fun p hp => mem_between.mpr (hmore (mem_between.mp hp)))
      fun p hp => mem_between.mpr (hmore (mem_between.mp hp))⟩
  cases hsender : s.sender.pc with
  | synSent =>
    have hstep := Sender.step_syn_timeout hrelease.sender hsenderTries hsender h.sender
    have hown : AddressedEvent.Own (.sender (.recv .timeout)) := trivial
    have hpath := System.Path.single (M := addressed cfg (· = .receiver)) hown
      (.sender .timeout hstep)
    obtain ⟨t, hrest, hready, hdone⟩ := hletter
      { s with mail := s.mail ++ sendTo .sender s.senderAddr [controlPacket s.sender.sqn rtpSyn] }
      hsenderAddr rfl
      (h.mono rfl rfl
        (fun p hp => mem_between.mpr (List.mem_append_left _ (mem_between.mp hp)))
        fun p hp => mem_between.mpr (List.mem_append_left _ (mem_between.mp hp)))
      ⟨.intact (controlPacket s.sender.sqn rtpSyn), List.mem_append_right _
        (mem_sendTo.mpr ⟨_, List.mem_singleton_self _, hsenderAddr ▸ rfl⟩)⟩
    exact ⟨t, hpath.trans hrest, hready, hdone⟩
  | ackSent =>
    rcases hanswerable hsender hpc with haddr' | hmem | ⟨p, hmem, hflags, hseq⟩
    · exact absurd haddr' haddr
    · exact hletter s hsenderAddr rfl h hmem
    · obtain ⟨u, hpath, hu, hconfirmed, hreceiver, hmore, hack⟩ :=
        confirm_path cfg (· = .receiver) hsender h.sender hmem hflags hseq
      have hsqn : s.sender.sqn = cfg.sender.start := by
        rw [← hcovered.sender]
        exact (lifecycle_reachable hv).senderSqn (.inl (hcovered.sender ▸ hsender))
      have hpc' : u.receiver.pc = .synReceived := hreceiver ▸ hpc
      have hnone : s.sender.acked = ∅ := Sender.acked_of_not_entered (by rw [hsender]; exact id)
      have hcompletable : Completable cfg u.plain := by
        refine ⟨?_, ?_, fun _ _ => mem_between.mpr (hsqn ▸ hack), fun k hk _ => ?_,
          fun hclosed => ?_⟩
        · show u.sender.fatal = false
          rw [hconfirmed]
          exact h.sender
        · show u.receiver.fatal = false
          rw [hreceiver]
          exact h.receiver
        · rcases h.data k hk (by rw [show s.plain.sender = s.sender from rfl, hnone]; exact id) with
            ⟨j, hj, hcovers, q, hq, hqack⟩ | hserves
          · exact .inl ⟨j, hj, hcovers, q, mem_between.mpr (hmore (mem_between.mp hq)), hqack⟩
          · right
            rw [show u.plain.receiver = s.plain.receiver from hreceiver]
            exact hserves
        · exact absurd (hpc'.symm.trans hclosed) nofun
      obtain ⟨t, hrest, hready, hdone⟩ := hletter u hu hreceiver hcompletable ⟨_, hack⟩
      exact ⟨t, hpath.trans hrest, hready, hdone⟩
  | established | transfer | transferred | finSent | closed =>
    have hpast : s.plain.sender.pc.pastEstablish := by
      rw [show s.plain.sender.pc = _ from hsender]
      trivial
    exact hletter s hsenderAddr rfl h ⟨_, mem_between.mp (h.handshake hpast hpc)⟩

/-! ## A sender that goes on without its third handshake -/

/-- The sender is at its single extra receive, and neither program hears from the
other. -/
structure Forsaken (s : Addressed) : Prop where
  sender : s.sender.pc = .ackSent
  receiver : s.receiver.pc = .synReceived
  receiverAddr : s.receiverAddr ≠ .sender
  toReceiver : ∀ m ∈ s.mail, m.source = .sender → m.destination ≠ .receiver
  toSender : ∀ m ∈ s.mail, m.source = .receiver → m.destination = .sender → ∀ p,
    m.content = .intact p → p.flags = rtpAck ||| rtpSyn → p.seqNum ≠ s.sender.sqn

/-- The single extra receive without the SYN|ACK. -/
theorem Sender.step_ackSent {cfg : SenderConfig} {x x' : Sender} {input : Input}
    {sent : List Packet} (h : Sender.step cfg x input = some (x', sent)) (hpc : x.pc = .ackSent)
    (hno : ∀ p, input = .recv (.ok p) → p.flags = rtpAck ||| rtpSyn → p.seqNum ≠ x.sqn) :
    sent = [] ∧ (x'.pc = .ackSent ∧ x'.sqn = x.sqn ∨ x'.pc = .established) := by
  cases hfatal : x.fatal with
  | true => simp [step, hfatal] at h
  | false =>
    cases input with
    | run => simp [step, hfatal, run, hpc] at h
    | exit =>
      simp only [step, hfatal, Bool.false_eq_true, if_false, Option.some.injEq,
        Prod.mk.injEq] at h
      obtain ⟨rfl, rfl⟩ := h
      exact ⟨rfl, .inl ⟨hpc, rfl⟩⟩
    | recv r =>
      simp only [step, hfatal, Bool.false_eq_true, if_false, recv, hpc, Option.some.injEq,
        Prod.mk.injEq] at h
      obtain ⟨rfl, rfl⟩ := h
      refine ⟨?_, .inr rfl⟩
      cases r with
      | timeout => rfl
      | rejected p => rfl
      | ok p => exact if_neg fun hboth => hno p rfl hboth.2 hboth.1

/-- Either both still wait, or the sender goes on and nothing of it is on its way. -/
theorem Forsaken.step {e : AddressedEvent} (h : Forsaken s) (hsound : s.Sound)
    (htrusted : Trusted s) (hstep : AddressedStep cfg (· = .receiver) s e s') :
    Forsaken s' ∨ s'.sender.pc = .established ∧ s'.receiver.pc = .synReceived ∧
      ∀ m ∈ s'.mail, m.source = .sender → m.destination ≠ .receiver := by
  cases hstep with
  | @sender input addr mail x sent hreceives hstep =>
    have hno : ∀ p, input = .recv (.ok p) → p.flags = rtpAck ||| rtpSyn →
        p.seqNum ≠ s.sender.sqn := by
      intro p hp
      cases hreceives with
      | run | exit | timeout => cases hp
      | @datagram m hmem hdest =>
        cases hcontent : m.content with
        | corrupted q =>
          rw [hcontent] at hp
          cases hp
        | intact q =>
          rw [hcontent] at hp
          obtain rfl : q = p := Recv.ok.inj (Input.recv.inj hp)
          exact h.toSender m hmem (htrusted.mail m hmem hdest) hdest q hcontent
    obtain ⟨rfl, hpc⟩ := Sender.step_ackSent hstep h.sender hno
    have hmail : ∀ m ∈ mail ++ sendTo .sender addr [], m ∈ s.mail := by
      intro m hm
      rcases List.mem_append.mp hm with hm | hm
      · exact hreceives.mem hm
      · cases hm
    rcases hpc with ⟨hpc, hsqn⟩ | hpc
    · left
      refine ⟨hpc, h.receiver, h.receiverAddr, fun m hm => h.toReceiver m (hmail m hm), ?_⟩
      intro m hm hsource hdest p hp hflags
      rw [hsqn]
      exact h.toSender m (hmail m hm) hsource hdest p hp hflags
    · exact .inr ⟨hpc, h.receiver, fun m hm => h.toReceiver m (hmail m hm)⟩
  | @receiver input addr mail x sent hreceives hstep =>
    left
    have hheard : addr ≠ .sender ∧ ∀ p, input ≠ .recv (.ok p) := by
      cases hreceives with
      | run | exit | timeout => exact ⟨h.receiverAddr, nofun⟩
      | @datagram m hmem hdest =>
        have hstranger : ∃ id, m.source = .stranger id := by
          cases hsource : m.source with
          | sender => exact absurd hdest (h.toReceiver m hmem hsource)
          | receiver =>
            rcases (hsound.mail m hmem).apart with hne | ⟨id, hid⟩
            · exact absurd (hsource.trans hdest.symm) hne
            · exact absurd (hsource.symm.trans hid) nofun
          | stranger id => exact ⟨id, rfl⟩
        obtain ⟨id, hid⟩ := hstranger
        obtain ⟨q, hq⟩ := (hsound.mail m hmem).noise id hid
        rw [hid, hq]
        exact ⟨nofun, nofun⟩
    obtain ⟨haddr, halone⟩ := hheard
    have hpc : x.pc = .synReceived :=
      Receiver.step_synReceived hstep h.receiver fun p hp => absurd hp (halone p)
    refine ⟨h.sender, hpc, haddr, ?_, ?_⟩
    · exact forall_mem_sendTo (fun m hm => h.toReceiver m (hreceives.mem hm)) fun _ _ => nofun
    · exact forall_mem_sendTo (fun m hm => h.toSender m (hreceives.mem hm))
        fun _ _ _ hdest => absurd hdest haddr
  | channel hchannel =>
    left
    refine ⟨h.sender, h.receiver, h.receiverAddr, ?_, ?_⟩
    · exact hchannel.forall_hosts
        (P := fun source destination => source = .sender → destination ≠ .receiver) h.toReceiver
    · refine hchannel.forall_mem (fun m m' hgarbles _ => ?_) h.toSender
      cases hgarbles with
      | content hcorrupts =>
        cases hcorrupts
        intro _ _ p hp
        cases hp
  | stray =>
    left
    refine ⟨h.sender, h.receiver, h.receiverAddr, fun m hm => ?_, fun m hm => ?_⟩
    · rcases List.mem_cons.mp hm with rfl | hm
      · exact nofun
      · exact h.toReceiver m hm
    · rcases List.mem_cons.mp hm with rfl | hm
      · exact nofun
      · exact h.toSender m hm

/-- A state in which the sender goes on is stranded without addresses as well. -/
theorem exists_stranded (hs : (addressed cfg noisy).Reachable s)
    (hsender : s.sender.pc = .established) (hreceiver : s.receiver.pc = .synReceived)
    (hnone : ∀ m ∈ s.mail, m.source = .sender → m.destination ≠ .receiver) :
    ∃ t, (network cfg).Reachable t ∧ Covered s t ∧ Stranded t := by
  obtain ⟨t, ht, hcovered, hintact, _⟩ := covered_intact hs
  refine ⟨t, ht, hcovered, ?_, ?_, fun f hf => ?_⟩
  · rw [hcovered.sender, hsender]
    trivial
  · rw [hcovered.receiver, hreceiver]
  · cases f with
    | corrupted p => trivial
    | intact p => exact absurd rfl (hnone _ (mem_between.mp (hintact p hf)) rfl)

/-- Nothing brings a forsaken sender back. -/
theorem Forsaken.dead_end (hs : (addressed cfg (· = .receiver)).Reachable s) (h : Forsaken s)
    (hpath : (addressed cfg (· = .receiver)).Path (fun _ => True) s u) : ¬ u.plain.Complete := by
  have hu : (addressed cfg (· = .receiver)).Reachable u ∧ (Forsaken u ∨
      ∃ t, (network cfg).Reachable t ∧ Covered u t ∧ Stranded t) := by
    refine hpath.invariant (P := fun v => (addressed cfg (· = .receiver)).Reachable v ∧
      (Forsaken v ∨ ∃ t, (network cfg).Reachable t ∧ Covered v t ∧ Stranded t)) ?_ ⟨hs, .inl h⟩
    intro v e w hv _ hstep
    obtain ⟨hreach, hcases⟩ := hv
    have hreach' := System.Reachable.step hreach hstep
    refine ⟨hreach', ?_⟩
    rcases hcases with hforsaken | ⟨t, ht, hcovered, hstranded⟩
    · rcases hforsaken.step (sound_reachable hreach) (trusted_reachable hreach) hstep with
        hforsaken' | ⟨hsender, hreceiver, hnone⟩
      · exact .inl hforsaken'
      · exact .inr (exists_stranded hreach' hsender hreceiver hnone)
    · obtain ⟨t', hrest, hcovered'⟩ := hcovered.step (sound_reachable hreach) hstep
      exact .inr ⟨t', ht.path hrest, hcovered',
        hrest.invariant (P := Stranded) (fun _ _ _ hx _ hxy => hx.step hxy) hstranded⟩
  intro hdone
  rcases hu.2 with hforsaken | ⟨t, _, hcovered, hstranded⟩
  · exact absurd (hforsaken.sender.symm.trans hdone.1) nofun
  · have hwaits := hstranded.receiver
    rw [hcovered.receiver] at hwaits
    exact absurd (hwaits.symm.trans hdone.2.2.1) nofun

/-! ## Which connections the strangers leave alone -/

/-- From an aimed state the connection is completed as it would be without
addresses. -/
theorem Addressed.Aimed.complete_path (hcfg : cfg.Compatible)
    (hzero : cfg.sender.start.toNat = 0) (hrelease : cfg.Release) (noisy : Host → Prop)
    (hs : (addressed cfg noisy).Reachable s) (haimed : s.Aimed) (h : Completable cfg s.plain) :
    ∃ u, (addressed cfg noisy).Path AddressedEvent.Own s u ∧ u.plain.Complete ∧
      u.receiver.file = some (cfg.sender.assigned.map some) := by
  obtain ⟨t, ht, hcovered⟩ := covered_reachable hs
  obtain ⟨c, hpath, hc⟩ := exists_same hcovered.toReceiver
  obtain ⟨d, hpath', hd⟩ := exists_same hcovered.toSender
  have hreach := (ht.path (path_toReceiver cfg hpath)).path (path_toSender cfg hpath')
  have hcovers : Covers s { t with toReceiver := c, toSender := d } :=
    ⟨hcovered.sender, hcovered.receiver, fun f hf => (hc f).mp hf, fun f hf => (hd f).mp hf⟩
  have hcompletable : Completable cfg { t with toReceiver := c, toSender := d } :=
    h.mono hcovered.sender hcovered.receiver (fun p hp => (hc _).mpr hp) fun p hp => (hd _).mpr hp
  obtain ⟨w, hrest, hdone⟩ := Rtp.complete_path hcfg hzero hrelease hreach hcompletable
  obtain ⟨u, hpath, _, hu⟩ := hcovers.path noisy haimed hrest
  have hfile := file_eq_of_closed hcfg (hreach.path hrest) (.inl hdone.1)
  have hsender : u.plain.sender = w.sender := hu.sender.symm
  have hreceiver : u.plain.receiver = w.receiver := hu.receiver.symm
  refine ⟨u, hpath, ?_, hu.receiver ▸ hfile⟩
  rw [State.Complete, hsender, hreceiver]
  exact hdone

/-- **What strangers at the receiver's port can do.**  Let both programs run in one mode,
in selective repeat with a receiver's window of at most `2 ^ 30`.  Whatever strangers
send there that is no RTP packet, in a release build the connection can still be
completed exactly when it could be without them, and the sender is not left at its
single extra receive while the receiver repeats its SYN|ACK to a stranger. -/
theorem strays_at_receiver_iff (cfg : Config) (hcfg : cfg.Compatible)
    (hisn : cfg.sender.isn = getRandomSeqnum) (hrelease : cfg.Release) {s : Addressed}
    (hs : (addressed cfg (· = .receiver)).Reachable s) :
    (∃ u, (addressed cfg (· = .receiver)).Path (fun _ => True) s u ∧ u.plain.Complete ∧
      u.receiver.file = some (cfg.sender.assigned.map some)) ↔
      Completable cfg s.plain ∧ s.Answerable := by
  have hzero : cfg.sender.start.toNat = 0 := by
    unfold SenderConfig.start
    rw [hisn]
    decide
  constructor
  · intro ⟨u, hpath, hdone, _⟩
    constructor
    · obtain ⟨t, ht, hcovered, hintact, hintact'⟩ := covered_intact hs
      obtain ⟨v, hrest, hv⟩ := hcovered.path hs hpath
      have hsender : v.sender = u.plain.sender := hv.sender
      have hreceiver : v.receiver = u.plain.receiver := hv.receiver
      have hdone' : v.Complete := by
        rw [State.Complete, hsender, hreceiver]
        exact hdone
      exact (completable_of_complete hcfg ht hrest hdone').mono hcovered.sender.symm
        hcovered.receiver.symm hintact hintact'
    · intro hpc hwaits
      by_contra hnone
      rw [not_or, not_or, not_exists, not_exists] at hnone
      obtain ⟨haddr, hletters, hanswers⟩ := hnone
      refine Forsaken.dead_end hs ⟨hpc, hwaits, haddr, fun m hm hsource hdest => ?_,
        fun m hm hsource hdest p hp hflags hseq => ?_⟩ hpath hdone
      · obtain ⟨source, destination, f⟩ := m
        cases hsource
        cases hdest
        exact hletters f hm
      · obtain ⟨source, destination, f⟩ := m
        cases hsource
        cases hdest
        cases hp
        exact hanswers p ⟨hm, hflags, hseq⟩
  · intro ⟨h, hanswerable⟩
    obtain ⟨t, hpath, haimed, ht⟩ := aim_path hrelease hs h hanswerable
    obtain ⟨u, hrest, hdone, hfile⟩ :=
      haimed.complete_path hcfg hzero hrelease _ (hs.path hpath) ht
    exact ⟨u, (hpath.trans hrest).mono fun _ _ => trivial, hdone, hfile⟩

/-- From the very first state strangers at the receiver's port do no harm. -/
theorem strays_at_receiver_oneByte :
    ∃ u, (addressed (oneByte .gbn) (· = .receiver)).Path (fun _ => True)
        (Addressed.start (oneByte .gbn)) u ∧ u.plain.Complete ∧
      u.receiver.file = some ((oneByte .gbn).sender.assigned.map some) := by
  have hcfg : (oneByte .gbn).Compatible := ⟨rfl, nofun⟩
  have hs : (network (oneByte .gbn)).Reachable (State.start (oneByte .gbn)) := .init rfl
  have hstart : Completable (oneByte .gbn) (State.start (oneByte .gbn)) :=
    .of_idle hcfg hs rfl rfl id fun _ => nofun
  refine (strays_at_receiver_iff (oneByte .gbn) hcfg rfl ⟨rfl, rfl⟩ (.init rfl)).mpr
    ⟨hstart.mono rfl rfl ?_ nofun, nofun⟩
  exact fun p hp => (covers_start (oneByte .gbn)).toReceiver hp

end NetLabs.Rtp
