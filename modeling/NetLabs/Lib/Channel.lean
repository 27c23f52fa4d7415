import Mathlib.Tactic.TypeStar

/-!
# Unordered lossy channels

The messages in flight are a list whose order has no meaning: any of them can
be received next, so delay and reordering need no step of their own.  The
channel itself can lose, duplicate or garble a message.

`ChannelStep.forall_mem` is the rule for invariants of the form "every message
in flight satisfies `P`": the channel keeps such an invariant as soon as
garbling keeps `P`.
-/

namespace NetLabs.Lib

/-- The three ways a channel can misbehave. -/
inductive ChannelEvent where
  | lose
  | duplicate
  | garble
  deriving DecidableEq, Repr

/-- One move of the channel.  `garbles a b` says that `a` can turn into `b`. -/
inductive ChannelStep {α : Type*} [DecidableEq α] (garbles : α → α → Prop) :
    List α → ChannelEvent → List α → Prop
  | lose {c : List α} {a : α} (hmem : a ∈ c) : ChannelStep garbles c .lose (c.erase a)
  | duplicate {c : List α} {a : α} (hmem : a ∈ c) : ChannelStep garbles c .duplicate (a :: c)
  | garble {c : List α} {a b : α} (hmem : a ∈ c) (hgarbles : garbles a b) :
      ChannelStep garbles c .garble (b :: c.erase a)

variable {α : Type*} [DecidableEq α] {garbles : α → α → Prop} {c c' : List α} {e : ChannelEvent}

/-- What the channel does not garble it keeps: every message that is in flight
afterwards was in flight before, or is a garbled one. -/
theorem ChannelStep.mem_cases (h : ChannelStep garbles c e c') {a : α} (ha : a ∈ c') :
    a ∈ c ∨ ∃ b ∈ c, garbles b a := by
  cases h with
  | lose _ => exact Or.inl (List.mem_of_mem_erase ha)
  | duplicate hmem =>
    rcases List.mem_cons.mp ha with rfl | ha
    · exact Or.inl hmem
    · exact Or.inl ha
  | garble hmem hgarbles =>
    rcases List.mem_cons.mp ha with rfl | ha
    · exact Or.inr ⟨_, hmem, hgarbles⟩
    · exact Or.inl (List.mem_of_mem_erase ha)

/-- The channel keeps a property of all messages in flight. -/
theorem ChannelStep.forall_mem {P : α → Prop} (hgarbles : ∀ a b, garbles a b → P a → P b)
    (h : ChannelStep garbles c e c') (hc : ∀ a ∈ c, P a) : ∀ a ∈ c', P a := by
  intro a ha
  rcases h.mem_cases ha with hmem | ⟨b, hmem, hb⟩
  · exact hc a hmem
  · exact hgarbles b a hb (hc b hmem)

end NetLabs.Lib
