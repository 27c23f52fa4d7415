import NetLabs.Rtp.Transfer

/-!
# End-to-end safety of both modes

What the joint invariant says about a whole run: the two windows never get
ahead of each other, and the file that is written at the end is the file that
was cut into packets.
-/

namespace NetLabs.Rtp

open NetLabs.Lib

variable {s : State}

/-- A slot that the sender has marked belongs to a stored packet, and every
stored packet is in the buffer at its place. -/
theorem marked_stored {cfg : Config} (hcfg : cfg.Compatible) (hs : (network cfg).Reachable s) :
    (∀ i, s.sender.window[i]? = some true → s.sender.shift + i ∈ s.receiver.stored) ∧
      HoldsBlocks payloadMax cfg.sender.payload s.receiver.buf s.receiver.stored := by
  have h := dataInv_reachable hcfg (starts_network cfg) hs
  have hsafe := (delivery_safe hcfg (starts_network cfg) hs).acked_subset
  refine ⟨fun i hi => hsafe ?_, stored_holds hcfg (starts_network cfg) hs⟩
  change s.sender.shift + i ∈ s.sender.acked
  rw [h.sender.acked_eq]
  exact Or.inr ⟨Nat.le_add_right _ _, by simpa using hi⟩

/-- Selective repeat, for every file, every starting number, every window of
the sender and every window up to `2 ^ 30` of the receiver.  In every reachable
state the marked slots of the sender belong to stored packets and the bases are
in order.  When either program returns normally the file is the concatenation
of the payloads of all packets. -/
theorem selective_repeat_delivers (cfg : Config) (hsender : cfg.sender.mode = .sr)
    (hreceiver : cfg.receiver.mode = .sr) (hwsize : cfg.receiver.wsize ≤ 2 ^ 30)
    (hs : (network cfg).Reachable s) :
    (∀ i, s.sender.window[i]? = some true → s.sender.shift + i ∈ s.receiver.stored) ∧
    HoldsBlocks payloadMax cfg.sender.payload s.receiver.buf s.receiver.stored ∧
    s.sender.shift ≤ s.receiver.shift ∧
    s.receiver.shift ≤ s.sender.shift + s.sender.outstanding ∧
    (s.sender.pc = .closed ∨ s.receiver.pc = .closed →
      s.receiver.file =
        some (((List.range cfg.sender.npacket).flatMap cfg.sender.payload).map some)) := by
  have hcfg : cfg.Compatible := ⟨hsender.trans hreceiver.symm, fun _ => hwsize⟩
  obtain ⟨hslots, hholds⟩ := marked_stored hcfg hs
  obtain ⟨hlower, hupper⟩ := windows_ordered hcfg (starts_network cfg) hs
  exact ⟨hslots, hholds, hlower, hupper, file_eq_of_closed hcfg hs⟩

/-- A complete run of selective repeat writes the one byte of the file. -/
theorem selective_repeat_delivers_oneByte :
    ∃ s, (network (oneByte .sr)).Reachable s ∧ s.sender.pc = .closed ∧
      s.receiver.file = some [some 7] := by
  obtain ⟨s, hs, hpc, -⟩ := oneByte_closed .sr
  have hdelivers := selective_repeat_delivers (oneByte .sr) rfl rfl (by decide) hs
  exact ⟨s, hs, hpc, (hdelivers.2.2.2.2 (Or.inl hpc)).trans (by decide +kernel)⟩

/-- Go-back-N, for every file, every starting number and every windows.  In
every reachable state the receiver has accepted the packets below its `shift`
in order, and the sender's `shift` is not ahead of it.  When either program
returns normally the file is the concatenation of the payloads of all
packets. -/
theorem go_back_n_delivers (cfg : Config) (hsender : cfg.sender.mode = .gbn)
    (hreceiver : cfg.receiver.mode = .gbn) (hs : (network cfg).Reachable s) :
    s.sender.shift ≤ s.receiver.shift ∧
    s.receiver.stored = Set.Iio s.receiver.shift ∧
    HoldsBlocks payloadMax cfg.sender.payload s.receiver.buf (Set.Iio s.receiver.shift) ∧
    (s.sender.pc = .closed ∨ s.receiver.pc = .closed →
      s.receiver.file =
        some (((List.range cfg.sender.npacket).flatMap cfg.sender.payload).map some)) := by
  have hcfg : cfg.Compatible :=
    ⟨hsender.trans hreceiver.symm, fun hsr => by rw [hreceiver] at hsr; cases hsr⟩
  have h := dataInv_reachable hcfg (starts_network cfg) hs
  obtain ⟨_, hholds⟩ := marked_stored hcfg hs
  have hstored : s.receiver.stored = Set.Iio s.receiver.shift := by
    rw [h.receiver.stored_eq]
    by_cases hentered : s.receiver.pc.enteredTransfer
    · exact (h.receiver.stores hentered).marked_gbn hreceiver
    · rw [(h.receiver.idle hentered).2]
      exact marked_replicate_false _ 0
  exact ⟨(windows_ordered hcfg (starts_network cfg) hs).1, hstored, hstored ▸ hholds, file_eq_of_closed hcfg hs⟩

/-- A complete run of go-back-N writes the one byte of the file. -/
theorem go_back_n_delivers_oneByte :
    ∃ s, (network (oneByte .gbn)).Reachable s ∧ s.sender.pc = .closed ∧
      s.receiver.file = some [some 7] := by
  obtain ⟨s, hs, hpc, -⟩ := oneByte_closed .gbn
  have hdelivers := go_back_n_delivers (oneByte .gbn) rfl rfl hs
  exact ⟨s, hs, hpc, (hdelivers.2.2.2 (Or.inl hpc)).trans (by decide +kernel)⟩

end NetLabs.Rtp
