import Mathlib.Order.Interval.Set.Nat
import NetLabs.Lib.Transition

/-!
# Reliable delivery of numbered blocks

What a sliding-window protocol is for, without windows, numbers or messages.
Some first blocks have been sent, the receiving side has stored some of these,
and the sending side takes some blocks as acknowledged.  Only stored blocks are
ever acknowledged, so knowing that everything is acknowledged is knowing that
everything is stored (`Safe.complete`).
-/

namespace NetLabs.Lib

namespace Delivery

structure State where
  /-- The blocks below this number have been sent. -/
  sent : Nat
  stored : Set Nat
  acked : Set Nat

inductive Event where
  | send
  | store
  | acknowledge
  deriving DecidableEq, Repr

/-- The steps of a delivery of `n` blocks. -/
inductive Step (n : Nat) : State → Event → State → Prop
  | send {s : State} {m : Nat} (hle : s.sent ≤ m) (hm : m ≤ n) :
      Step n s .send { s with sent := m }
  | store {s : State} {k : Nat} (hsent : k < s.sent) :
      Step n s .store { s with stored := insert k s.stored }
  | acknowledge {s : State} {covered : Set Nat} (hstored : covered ⊆ s.stored) :
      Step n s .acknowledge { s with acked := s.acked ∪ covered }

/-- Delivery of `n` blocks. -/
def system (n : Nat) : System State Event where
  init s := s.sent = 0 ∧ s.stored = ∅ ∧ s.acked = ∅
  step := Step n

/-- Acknowledged is stored, stored is sent, and sent is one of the blocks. -/
structure Safe (n : Nat) (s : State) : Prop where
  acked_subset : s.acked ⊆ s.stored
  stored_subset : s.stored ⊆ Set.Iio s.sent
  sent_le : s.sent ≤ n

variable {n : Nat} {s t : State} {e : Event}

theorem safe_init (h : (system n).init s) : Safe n s := by
  obtain ⟨hsent, hstored, hacked⟩ := h
  constructor <;> simp [hsent, hstored, hacked]

theorem Safe.step (h : Safe n s) (hstep : Step n s e t) : Safe n t := by
  cases hstep with
  | send hle hm =>
    exact ⟨h.acked_subset, h.stored_subset.trans (Set.Iio_subset_Iio hle), hm⟩
  | store hsent =>
    refine ⟨h.acked_subset.trans (Set.subset_insert _ _), ?_, h.sent_le⟩
    exact Set.insert_subset hsent h.stored_subset
  | acknowledge hstored =>
    exact ⟨Set.union_subset h.acked_subset hstored, h.stored_subset, h.sent_le⟩

theorem safe_reachable (hs : (system n).Reachable s) : Safe n s :=
  hs.invariant (P := Safe n) (fun _ => safe_init) (fun _ _ _ _ h hstep => h.step hstep)

/-- Once all blocks are acknowledged they are all stored. -/
theorem Safe.complete (h : Safe n s) (hall : Set.Iio n ⊆ s.acked) : s.stored = Set.Iio n :=
  Set.Subset.antisymm (h.stored_subset.trans (Set.Iio_subset_Iio h.sent_le))
    (hall.trans h.acked_subset)

end Delivery

end NetLabs.Lib
