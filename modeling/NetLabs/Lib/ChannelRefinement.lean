import NetLabs.Lib.Channel
import Mathlib

/-!
# Channels that carry related messages

One channel refines another when its messages stand for those of the other, one
for one and in any order.

* `Carries.take`: a message that is received on one side has a partner on the
  other, and the rest still corresponds.
* `Carries.channel`: what the one channel does, the other can do as well.
-/

namespace NetLabs.Lib

variable {α β : Type*} {r : α → β → Prop} {c c' : List α} {l l' : List β}

/-- Each message of `c` stands for one of `l`. -/
def Carries (r : α → β → Prop) (c : List α) (l : List β) : Prop :=
  Multiset.Rel r (c : Multiset α) (l : Multiset β)

theorem Carries.nil : Carries r [] [] := Multiset.Rel.zero

theorem Carries.cons {a : α} {b : β} (hab : r a b) (h : Carries r c l) :
    Carries r (a :: c) (b :: l) := Multiset.Rel.cons hab h

theorem Carries.append (h : Carries r c l) (h' : Carries r c' l') :
    Carries r (c ++ c') (l ++ l') := by
  have hsum := Multiset.Rel.add h h'
  rwa [Multiset.coe_add, Multiset.coe_add] at hsum

/-- What is sent on both sides corresponds. -/
theorem Carries.send {γ : Type*} (h : Carries r c l) {f : γ → α} {g : γ → β} {sent : List γ}
    (hsent : ∀ x ∈ sent, r (f x) (g x)) : Carries r (c ++ sent.map f) (l ++ sent.map g) := by
  refine h.append ?_
  clear h
  induction sent with
  | nil => exact .nil
  | cons x sent ih =>
    exact .cons (hsent x List.mem_cons_self) (ih fun y hy => hsent y (List.mem_cons_of_mem x hy))

/-- A message that is taken out has a partner that is taken out with it. -/
theorem Carries.take [BEq α] [LawfulBEq α] [BEq β] [LawfulBEq β] (h : Carries r c l) {a : α}
    (ha : a ∈ c) : ∃ b ∈ l, r a b ∧ Carries r (c.erase a) (l.erase b) := by
  have hc : (c : Multiset α) = a ::ₘ (c.erase a : List α) :=
    Multiset.coe_eq_coe.mpr (List.perm_cons_erase ha)
  unfold Carries at h
  rw [hc, Multiset.rel_cons_left] at h
  obtain ⟨b, bs, hab, hrest, hl⟩ := h
  have hb : b ∈ l := by
    rw [← Multiset.mem_coe, hl]
    exact Multiset.mem_cons_self b bs
  have hsame : (l : Multiset β) = b ::ₘ (l.erase b : List β) :=
    Multiset.coe_eq_coe.mpr (List.perm_cons_erase hb)
  rw [(Multiset.cons_inj_right b).mp (hl.symm.trans hsame)] at hrest
  exact ⟨b, hb, hab, hrest⟩

variable [DecidableEq α] [DecidableEq β]
variable {garbles : α → α → Prop} {garbles' : β → β → Prop} {e : ChannelEvent}

/-- The other channel loses and duplicates the partner.  When a message is
garbled, either it still stands for its partner, or that one is garbled too. -/
theorem Carries.channel (h : Carries r c l) (hstep : ChannelStep garbles c e c')
    (hgarbles : ∀ a a' b, garbles a a' → r a b → r a' b ∨ ∃ b', garbles' b b' ∧ r a' b') :
    Carries r c' l ∨ ∃ l', ChannelStep garbles' l e l' ∧ Carries r c' l' := by
  cases hstep with
  | lose hmem =>
    obtain ⟨b, hb, _, hrest⟩ := h.take hmem
    exact .inr ⟨_, .lose hb, hrest⟩
  | duplicate hmem =>
    obtain ⟨b, hb, hab, _⟩ := h.take hmem
    exact .inr ⟨_, .duplicate hb, .cons hab h⟩
  | garble hmem hgarble =>
    obtain ⟨b, hb, hab, hrest⟩ := h.take hmem
    rcases hgarbles _ _ b hgarble hab with hsame | ⟨b', hb', hab'⟩
    · left
      have hback : Carries r (_ :: c.erase _) (b :: l.erase b) := .cons hsame hrest
      unfold Carries at hback ⊢
      rwa [Multiset.coe_eq_coe.mpr (List.perm_cons_erase hb).symm] at hback
    · exact .inr ⟨_, .garble hb hb', .cons hab' hrest⟩

end NetLabs.Lib
