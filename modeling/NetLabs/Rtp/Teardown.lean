import NetLabs.Rtp.Receiver

/-!
# The receiver waits for a FIN

The first loop of the receiver's `break_connection`, over a stream of receive
outcomes.  It assigns `recv_packet(...) < 0` to `scode` and then looks for -2 in
it.  The comparison yields 0 or 1, so the branch for the timeout is dead, and the
loop knows no other way out than a FIN.

* `HonoursTimeout` is what the two branches are there for.
* `finWaitRun_of_no_fin`: without a FIN the loop stands where it stood.
* `honoursTimeout_iff`: a timeout must find the loop ended already.
-/

namespace NetLabs.Rtp

/-- An intact packet whose only flag is FIN. -/
def Recv.IsFin (r : Recv) : Prop := ∃ p, r = .ok p ∧ p.flags = rtpFin

/-- An outcome that should end the loop. -/
def Recv.IsDecisive (r : Recv) : Prop := r.IsFin ∨ r = .timeout

namespace Receiver

variable (cfg : ReceiverConfig)

/-- The receiver and what it has sent, after the first `n` outcomes of a stream or
when it has left the loop. -/
def finWaitRun (x : Receiver) (stream : Nat → Recv) : Nat → Receiver × List Packet
  | 0 => (x, [])
  | n + 1 =>
    let (y, sent) := finWaitRun x stream n
    if y.pc = .finWait then
      match step cfg y (.recv (stream n)) with
      | some (z, more) => (z, sent ++ more)
      | none => (y, sent)
    else
      (y, sent)

/-- The loop ends at the first decisive outcome: it answers a FIN, it exits at a
timeout, and it skips everything else. -/
structure HonoursTimeout (x : Receiver) (stream : Nat → Recv) : Prop where
  skips : ∀ n, (∀ k < n, ¬ (stream k).IsDecisive) → finWaitRun cfg x stream n = (x, [])
  replies : ∀ n p, (∀ k < n, ¬ (stream k).IsDecisive) → stream n = .ok p → p.flags = rtpFin →
    finWaitRun cfg x stream (n + 1) =
      ({ x with pc := .finReplied, sqn := p.seqNum },
        [controlPacket p.seqNum (rtpAck ||| rtpFin)])
  exits : ∀ n, (∀ k < n, ¬ (stream k).IsDecisive) → stream n = .timeout →
    finWaitRun cfg x stream (n + 1) = ({ x with fatal := true }, [])
  terminates : (∃ n, (stream n).IsDecisive) →
    ∃ n, (finWaitRun cfg x stream n).1.pc ≠ .finWait ∨
      (finWaitRun cfg x stream n).1.fatal = true

variable {cfg} {x : Receiver} {stream : Nat → Recv} {n : Nat}

theorem step_of_finWait (hpc : x.pc = .finWait) (hfatal : x.fatal = false) (r : Recv) :
    step cfg x (.recv r) = some (finWaitRecv x r) := by
  simp [step, recv, hpc, hfatal]

/-- The status code that the loop tests is 0 or 1. -/
theorem finWaitRecv_of_not_fin {r : Recv} (h : ¬ r.IsFin) : finWaitRecv x r = (x, []) := by
  have hscode : ¬ (if r.scode < 0 then (1 : Int) else 0) = -2 := by
    split <;> decide
  simp only [finWaitRecv]
  rw [if_neg hscode]
  cases r with
  | timeout => rfl
  | rejected => rfl
  | ok p =>
    have hflags : p.flags ≠ rtpFin := fun hflags => h ⟨p, rfl, hflags⟩
    show (if p.flags = rtpFin then _ else (x, [])) = _
    rw [if_neg hflags]

theorem finWaitRecv_fin {p : Packet} (hflags : p.flags = rtpFin) :
    finWaitRecv x (.ok p) =
      ({ x with pc := .finReplied, sqn := p.seqNum },
        [controlPacket p.seqNum (rtpAck ||| rtpFin)]) := by
  simp [finWaitRecv, Recv.scode, hflags]

/-- As long as no FIN arrives, the loop goes on as if nothing had. -/
theorem finWaitRun_of_no_fin (hpc : x.pc = .finWait) (hfatal : x.fatal = false)
    (h : ∀ k < n, ¬ (stream k).IsFin) : finWaitRun cfg x stream n = (x, []) := by
  induction n with
  | zero => rfl
  | succ n ih =>
    have hrun := ih fun k hk => h k (by omega)
    have hstep := finWaitRecv_of_not_fin (x := x) (h n (Nat.lt_succ_self n))
    simp only [finWaitRun, hrun, step_of_finWait hpc hfatal, hstep]
    rw [if_pos hpc]
    rfl

/-- The first FIN is answered. -/
theorem finWaitRun_fin (hpc : x.pc = .finWait) (hfatal : x.fatal = false)
    (h : ∀ k < n, ¬ (stream k).IsFin) {p : Packet} (hfin : stream n = .ok p)
    (hflags : p.flags = rtpFin) :
    finWaitRun cfg x stream (n + 1) =
      ({ x with pc := .finReplied, sqn := p.seqNum },
        [controlPacket p.seqNum (rtpAck ||| rtpFin)]) := by
  have hrun : finWaitRun cfg x stream n = (x, []) := finWaitRun_of_no_fin hpc hfatal h
  have hstep := finWaitRecv_fin (x := x) hflags
  simp only [finWaitRun, hrun, hfin, step_of_finWait hpc hfatal, hstep]
  rw [if_pos hpc]
  rfl

/-- The loop ends if and only if a FIN arrives. -/
theorem finWaitRun_ends_iff (hpc : x.pc = .finWait) (hfatal : x.fatal = false) :
    (∃ n, (finWaitRun cfg x stream n).1.pc ≠ .finWait ∨
      (finWaitRun cfg x stream n).1.fatal = true) ↔ ∃ n, (stream n).IsFin := by
  classical
  constructor
  · intro ⟨n, hended⟩
    by_contra hnone
    have hrun : finWaitRun cfg x stream n = (x, []) :=
      finWaitRun_of_no_fin hpc hfatal fun k _ hk => hnone ⟨k, hk⟩
    rw [hrun] at hended
    rcases hended with hleft | hexit
    · exact hleft hpc
    · rw [hfatal] at hexit
      cases hexit
  · intro hfin
    have ⟨p, hp, hflags⟩ := Nat.find_spec hfin
    have hrun : finWaitRun cfg x stream (Nat.find hfin + 1) = _ :=
      finWaitRun_fin hpc hfatal (fun k hk => Nat.find_min hfin hk) hp hflags
    refine ⟨Nat.find hfin + 1, .inl ?_⟩
    rw [hrun]
    intro hwait
    cases hwait

/-- The first timeout passes unnoticed when no FIN has come before it. -/
theorem not_honoursTimeout (hpc : x.pc = .finWait) (hfatal : x.fatal = false)
    (htimeout : stream n = .timeout) (hnone : ∀ k < n, ¬ (stream k).IsFin) :
    ¬ HonoursTimeout cfg x stream := by
  classical
  intro hhonours
  have hexists : ∃ m, stream m = .timeout := ⟨n, htimeout⟩
  have hle : Nat.find hexists ≤ n := Nat.find_min' hexists htimeout
  -- it is the first decisive outcome
  have hfirst : ∀ k < Nat.find hexists, ¬ (stream k).IsDecisive := by
    intro k hk hdecisive
    rcases hdecisive with hfin | htimeout
    · exact hnone k (by omega) hfin
    · exact Nat.find_min hexists hk htimeout
  have hexit := hhonours.exits _ hfirst (Nat.find_spec hexists)
  have hwait : finWaitRun cfg x stream (Nat.find hexists + 1) = (x, []) := by
    apply finWaitRun_of_no_fin hpc hfatal
    intro k hk hfin
    by_cases hlast : k = Nat.find hexists
    · obtain ⟨p, hp, _⟩ := hfin
      rw [hlast, Nat.find_spec hexists] at hp
      cases hp
    · exact hfirst k (by omega) (.inl hfin)
  rw [hwait] at hexit
  have hexited := congrArg (·.1.fatal) hexit
  rw [hfatal] at hexited
  cases hexited

/-- **The timeout of the teardown.**  The loop keeps to its two branches on a
stream if and only if every timeout in it comes after an intact FIN. -/
theorem honoursTimeout_iff (hpc : x.pc = .finWait) (hfatal : x.fatal = false) :
    HonoursTimeout cfg x stream ↔
      ∀ n, stream n = .timeout → ∃ k < n, (stream k).IsFin := by
  constructor
  · intro hhonours n htimeout
    by_contra hnone
    simp only [not_exists, not_and] at hnone
    exact not_honoursTimeout hpc hfatal htimeout hnone hhonours
  · intro hcover
    have hbefore : ∀ n, (∀ k < n, ¬ (stream k).IsDecisive) → ∀ k < n, ¬ (stream k).IsFin :=
      fun n hnone k hk hfin => hnone k hk (.inl hfin)
    refine ⟨?_, ?_, ?_, ?_⟩
    · intro n hnone
      exact finWaitRun_of_no_fin hpc hfatal (hbefore n hnone)
    · intro n p hnone hp hflags
      exact finWaitRun_fin hpc hfatal (hbefore n hnone) hp hflags
    · intro n hnone htimeout
      have ⟨k, hk, hfin⟩ := hcover n htimeout
      exact absurd (.inl hfin) (hnone k hk)
    · intro ⟨n, hdecisive⟩
      apply (finWaitRun_ends_iff hpc hfatal).mpr
      rcases hdecisive with hfin | htimeout
      · exact ⟨n, hfin⟩
      · have ⟨k, _, hfin⟩ := hcover n htimeout
        exact ⟨k, hfin⟩

/-- The receiver that has just written an empty file. -/
def written : Receiver := transferEnd start

/-- A stream that starts with a FIN. -/
theorem honoursTimeout_finFirst :
    HonoursTimeout ⟨1, by decide, .sr, false⟩ written
      (fun n => if n = 0 then .ok (controlPacket 7 rtpFin) else .timeout) := by
  apply (honoursTimeout_iff rfl rfl).mpr
  intro n hn
  have hpos : 0 < n := by
    by_contra hzero
    have hzero : n = 0 := by omega
    subst hzero
    cases hn
  exact ⟨0, hpos, controlPacket 7 rtpFin, rfl, rfl⟩

/-- When the sender is gone, every receive times out.  The loop of
`establish_connection` exits at the first one, this loop stays for ever. -/
theorem timeouts_not_honoured :
    (listenRecv ⟨1, by decide, .sr, false⟩ start .timeout).1.fatal = true ∧
      (∀ n, finWaitRun ⟨1, by decide, .sr, false⟩ written (fun _ => .timeout) n = (written, [])) ∧
      ¬ HonoursTimeout ⟨1, by decide, .sr, false⟩ written (fun _ => .timeout) := by
  have hnone : ¬ Recv.timeout.IsFin := by
    intro ⟨p, hp, _⟩
    cases hp
  refine ⟨rfl, ?_, ?_⟩
  · intro n
    exact finWaitRun_of_no_fin rfl rfl fun _ _ => hnone
  · intro hhonours
    have hexit := hhonours.exits 0 (fun k hk => absurd hk (Nat.not_lt_zero k)) rfl
    have hwait : finWaitRun ⟨1, by decide, .sr, false⟩ written (fun _ => .timeout) 1 =
        (written, []) := finWaitRun_of_no_fin rfl rfl fun _ _ => hnone
    rw [hwait] at hexit
    have hexited := congrArg (·.1.fatal) hexit
    cases hexited

end Receiver

end NetLabs.Rtp
