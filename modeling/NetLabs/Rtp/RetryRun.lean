import NetLabs.Rtp.Retry

/-!
# The retry loops over whole streams of receive outcomes

A build with `LDEBUG` counts its tries and gives up after `SEND_TR + 1` packets.
A default build does not count, because the increment is an argument of a macro
that expands to nothing, so it repeats its packet forever.  The two builds
agree on a stream exactly when an acceptable reply is among the first `SEND_TR`
outcomes (`buildsAgree_iff`).
-/

namespace NetLabs.Rtp

/-- How a loop has ended, if it has. -/
def Retry.outcome : Retry → Option Bool
  | .waiting _ => none
  | .accepted => some true
  | .usedUp => some false

namespace RetryLoop

/-- The loop after the first `n` receive outcomes of a stream, and the packets
it has sent so far. -/
def runFor (loop : RetryLoop) (ldebug : Bool) (stream : Nat → Recv) : Nat → Retry × List Packet
  | 0 => loop.start ldebug
  | n + 1 =>
    match loop.runFor ldebug stream n with
    | (.waiting tries, sent) =>
      let (retry, more) := loop.recv ldebug tries (stream n)
      (retry, sent ++ more)
    | ended => ended

/-- The outcome is a reply that the loop accepts. -/
def Replies (loop : RetryLoop) (r : Recv) : Prop := ∃ p, r = .ok p ∧ loop.accepts p = true

variable {loop : RetryLoop} {stream : Nat → Recv} {n : Nat}

theorem recv_of_replies (ldebug : Bool) (tries : Nat) {r : Recv} (h : loop.Replies r) :
    loop.recv ldebug tries r = (.accepted, []) := by
  obtain ⟨p, rfl, haccepts⟩ := h
  simp [recv, haccepts]

theorem recv_of_not_replies (ldebug : Bool) (tries : Nat) {r : Recv} (h : ¬ loop.Replies r) :
    loop.recv ldebug tries r = (head (logDebugTries ldebug tries), [loop.packet]) := by
  rcases recv_cases loop ldebug tries r with ⟨p, rfl, haccepts, _⟩ | ⟨_, heq⟩
  · exact absurd ⟨p, rfl, haccepts⟩ h
  · exact heq

/-- The first reply ends the loop, in either build. -/
theorem runFor_succ_of_replies {ldebug : Bool} {tries : Nat} {sent : List Packet}
    (h : loop.runFor ldebug stream n = (.waiting tries, sent)) (hreply : loop.Replies (stream n)) :
    loop.runFor ldebug stream (n + 1) = (.accepted, sent) := by
  simp [runFor, h, recv_of_replies ldebug tries hreply]

/-- Anything else makes the loop log and send again. -/
theorem runFor_succ_of_not_replies {ldebug : Bool} {tries : Nat} {sent : List Packet}
    (h : loop.runFor ldebug stream n = (.waiting tries, sent))
    (hreply : ¬ loop.Replies (stream n)) :
    loop.runFor ldebug stream (n + 1) =
      (head (logDebugTries ldebug tries), sent ++ [loop.packet]) := by
  simp [runFor, h, recv_of_not_replies ldebug tries hreply]

/-- A loop that has ended stays as it is. -/
theorem runFor_of_ended {ldebug : Bool} (h : (loop.runFor ldebug stream n).1.outcome.isSome)
    {m : Nat} (hle : n ≤ m) : loop.runFor ldebug stream m = loop.runFor ldebug stream n := by
  induction m, hle using Nat.le_induction with
  | base => rfl
  | succ m _ ih =>
    rw [runFor, ih]
    rcases hrun : loop.runFor ldebug stream n with ⟨retry, sent⟩
    rw [hrun] at h
    cases retry with
    | waiting tries => simp [Retry.outcome] at h
    | accepted => rfl
    | usedUp => rfl

/-! ## Without a reply -/

/-- The default build waits without ever counting. -/
theorem runFor_default (h : ∀ k < n, ¬ loop.Replies (stream k)) :
    loop.runFor false stream n = (.waiting 0, List.replicate (n + 1) loop.packet) := by
  induction n with
  | zero => simp [runFor, start, send, head, logDebugTries]
  | succ n ih =>
    have hrun := ih fun k hk => h k (by omega)
    rw [runFor_succ_of_not_replies hrun (h n (by omega)), ← List.replicate_succ']
    simp [head, logDebugTries]

/-- The build with `LDEBUG` counts one try for every packet. -/
theorem runFor_ldebug (h : ∀ k < n, ¬ loop.Replies (stream k)) (hn : n ≤ sendTr) :
    loop.runFor true stream n = (head (n + 1), List.replicate (n + 1) loop.packet) := by
  induction n with
  | zero => simp [runFor, start, send, logDebugTries]
  | succ n ih =>
    have hrun := ih (fun k hk => h k (by omega)) (by omega)
    have hwaiting : head (n + 1) = .waiting (n + 1) := by
      unfold head
      rw [if_neg (by omega)]
    rw [hwaiting] at hrun
    rw [runFor_succ_of_not_replies hrun (h n (by omega)), ← List.replicate_succ']
    simp [logDebugTries]

/-- After `SEND_TR` useless outcomes the build with `LDEBUG` has given up, with
`SEND_TR + 1` packets sent. -/
theorem runFor_ldebug_usedUp (h : ∀ k < sendTr, ¬ loop.Replies (stream k)) :
    loop.runFor true stream sendTr = (.usedUp, List.replicate (sendTr + 1) loop.packet) := by
  rw [runFor_ldebug h (Nat.le_refl _), head, if_pos (by omega)]

/-- Both builds, as long as fewer than `SEND_TR` outcomes were useless. -/
theorem runFor_waiting (ldebug : Bool) (h : ∀ k < n, ¬ loop.Replies (stream k))
    (hn : n < sendTr) :
    ∃ tries, loop.runFor ldebug stream n =
      (.waiting tries, List.replicate (n + 1) loop.packet) := by
  cases ldebug with
  | false => exact ⟨0, runFor_default h⟩
  | true =>
    refine ⟨n + 1, ?_⟩
    rw [runFor_ldebug h (by omega), head, if_neg (by omega)]

/-! ## The two builds -/

/-- A build keeps the promise of the loop: it ends, with at most `SEND_TR + 1`
packets sent, and gives up if no acceptable reply comes. -/
def Bounded (loop : RetryLoop) (ldebug : Bool) (stream : Nat → Recv) : Prop :=
  ∃ n, (loop.runFor ldebug stream n).1.outcome.isSome ∧
    (loop.runFor ldebug stream n).2.length ≤ sendTr + 1 ∧
    ((∀ k, ¬ loop.Replies (stream k)) → (loop.runFor ldebug stream n).1 = .usedUp)

/-- Debug logging does not change the loop: after any number of outcomes both
builds have sent the same packets and have the same outcome, and both keep the
promise. -/
structure BuildsAgree (loop : RetryLoop) (stream : Nat → Recv) : Prop where
  outcome : ∀ n, (loop.runFor true stream n).1.outcome = (loop.runFor false stream n).1.outcome
  sent : ∀ n, (loop.runFor true stream n).2 = (loop.runFor false stream n).2
  bounded : ∀ ldebug, loop.Bounded ldebug stream

/-- With the first reply at `n < SEND_TR` both builds send `n + 1` packets and
accept. -/
theorem runFor_accepted (ldebug : Bool) (h : ∀ k < n, ¬ loop.Replies (stream k))
    (hreply : loop.Replies (stream n)) (hn : n < sendTr) {m : Nat} (hm : n < m) :
    loop.runFor ldebug stream m = (.accepted, List.replicate (n + 1) loop.packet) := by
  obtain ⟨tries, hrun⟩ := runFor_waiting ldebug h hn
  have hsucc := runFor_succ_of_replies hrun hreply
  rw [runFor_of_ended (n := n + 1) (by rw [hsucc]; rfl) hm, hsucc]

/-- Up to and after a first reply at `n < SEND_TR` the two builds do the same. -/
theorem runFor_same (h : ∀ k < n, ¬ loop.Replies (stream k)) (hreply : loop.Replies (stream n))
    (hn : n < sendTr) (m : Nat) :
    (loop.runFor true stream m).1.outcome = (loop.runFor false stream m).1.outcome ∧
      (loop.runFor true stream m).2 = (loop.runFor false stream m).2 := by
  rcases Nat.lt_or_ge n m with hm | hm
  · rw [runFor_accepted true h hreply hn hm, runFor_accepted false h hreply hn hm]
    exact ⟨rfl, rfl⟩
  · have hbefore : ∀ j < m, ¬ loop.Replies (stream j) := fun j hj => h j (by omega)
    obtain ⟨t, ht⟩ := runFor_waiting true hbefore (by omega)
    obtain ⟨f, hf⟩ := runFor_waiting false hbefore (by omega)
    rw [ht, hf]
    exact ⟨rfl, rfl⟩

/-- The two builds of a retry loop agree on a stream of receive outcomes if and
only if one of its first `SEND_TR` outcomes is a reply that the loop accepts. -/
theorem buildsAgree_iff (loop : RetryLoop) (stream : Nat → Recv) :
    loop.BuildsAgree stream ↔ ∃ k < sendTr, loop.Replies (stream k) := by
  classical
  constructor
  · intro hagree
    by_contra hnone
    have hfew : ∀ k < sendTr, ¬ loop.Replies (stream k) := fun k hk hk' => hnone ⟨k, hk, hk'⟩
    have houtcome := hagree.outcome sendTr
    rw [runFor_ldebug_usedUp hfew, runFor_default hfew] at houtcome
    cases houtcome
  · rintro ⟨k, hk, hreply⟩
    -- the first reply decides
    have hexists : ∃ k, loop.Replies (stream k) := ⟨k, hreply⟩
    have hle : Nat.find hexists ≤ k := Nat.find_min' hexists hreply
    have hfirst : ∀ j < Nat.find hexists, ¬ loop.Replies (stream j) :=
      fun j hj => Nat.find_min hexists hj
    have hfound := Nat.find_spec hexists
    generalize Nat.find hexists = n at hle hfirst hfound
    have hsame := runFor_same hfirst hfound (by omega)
    refine ⟨fun m => (hsame m).1, fun m => (hsame m).2, fun ldebug => ⟨n + 1, ?_⟩⟩
    rw [runFor_accepted ldebug hfirst hfound (by omega) (Nat.lt_succ_self n)]
    refine ⟨rfl, ?_, fun hnone => absurd hreply (hnone k)⟩
    rw [List.length_replicate]
    omega

end RetryLoop

/-- Each of the three retry loops behaves the same with and without `LDEBUG`,
and is bounded, exactly on the streams in which an acceptable reply is among
the first `SEND_TR` receive outcomes. -/
theorem debug_transparent_iff (sqn : UInt32) (stream : Nat → Recv) :
    ((senderEstablishLoop sqn).BuildsAgree stream ↔
      ∃ k < sendTr, (senderEstablishLoop sqn).Replies (stream k)) ∧
    ((senderBreakLoop sqn).BuildsAgree stream ↔
      ∃ k < sendTr, (senderBreakLoop sqn).Replies (stream k)) ∧
    ((receiverEstablishLoop sqn).BuildsAgree stream ↔
      ∃ k < sendTr, (receiverEstablishLoop sqn).Replies (stream k)) :=
  ⟨RetryLoop.buildsAgree_iff _ _, RetryLoop.buildsAgree_iff _ _, RetryLoop.buildsAgree_iff _ _⟩

/-- When every receive times out, the build with `LDEBUG` has given up after
`SEND_TR` receives, and the default build still waits. -/
theorem debug_not_transparent :
    ((senderEstablishLoop 0).runFor true (fun _ => .timeout) sendTr).1 = .usedUp ∧
      ((senderEstablishLoop 0).runFor false (fun _ => .timeout) sendTr).1 = .waiting 0 ∧
      ¬ (senderEstablishLoop 0).BuildsAgree (fun _ => .timeout) := by
  have hnone : ∀ k < sendTr, ¬ (senderEstablishLoop 0).Replies
      ((fun _ => .timeout : Nat → Recv) k) := by
    rintro k _ ⟨p, hp, _⟩
    cases hp
  have hdebug := RetryLoop.runFor_ldebug_usedUp hnone
  have hdefault := RetryLoop.runFor_default hnone
  refine ⟨by rw [hdebug], by rw [hdefault], fun hagree => ?_⟩
  have houtcome := hagree.outcome sendTr
  rw [hdebug, hdefault] at houtcome
  cases houtcome

end NetLabs.Rtp
