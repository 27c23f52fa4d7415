import NetLabs.Lib.Channel
import NetLabs.Lib.Transition

/-!
# Mail between hosts

One network carries the mail of all hosts.  What is on its way from one host to
another is a channel of its own, and what the network does to the mail it does to
that channel or to another one.

There are three groups.

* What a channel can do on its own: it can copy a message before the message is
  taken, lose the messages that are not wanted, and put a garbled message beside
  the good one.
* `between`: the channel from one host to another.
* A channel that holds at least what is between two hosts keeps up with the
  network, and the network keeps up with a channel that holds at most that.
-/

namespace NetLabs.Lib

/-! ## A channel on its own -/

section Channel

variable {α : Type*} [DecidableEq α] {garbles : α → α → Prop} {c : List α} {a b : α}

/-- A channel as a transition system. -/
def channel (garbles : α → α → Prop) : System (List α) ChannelEvent where
  init _ := True
  step := ChannelStep garbles

/-- A channel can lose exactly the messages that are not wanted. -/
theorem exists_keep (garbles : α → α → Prop) (P : α → Prop) (c : List α) :
    ∃ c', (channel garbles).Path (· = .lose) c c' ∧ ∀ a, a ∈ c' ↔ a ∈ c ∧ P a := by
  induction hn : c.length using Nat.strongRecOn generalizing c with
  | ind n ih =>
    by_cases hall : ∀ a ∈ c, P a
    · exact ⟨c, .refl c, fun a => ⟨fun ha => ⟨ha, hall a ha⟩, And.left⟩⟩
    · obtain ⟨a, hunwanted⟩ := Classical.not_forall.mp hall
      obtain ⟨ha, hnot⟩ := Classical.not_imp.mp hunwanted
      have hlt : (c.erase a).length < n := by
        have hpos := List.length_pos_of_mem ha
        rw [List.length_erase_of_mem ha]
        omega
      obtain ⟨c', hpath, hkept⟩ := ih _ hlt (c.erase a) rfl
      have hlose : (channel garbles).Path (· = .lose) c (c.erase a) := .single rfl (.lose ha)
      refine ⟨c', hlose.trans hpath, fun b => (hkept b).trans ?_⟩
      constructor
      · intro ⟨hb, hP⟩
        exact ⟨List.mem_of_mem_erase hb, hP⟩
      · intro ⟨hb, hP⟩
        have hne : b ≠ a := fun heq => hnot (heq ▸ hP)
        exact ⟨(List.mem_erase_of_ne hne).mpr hb, hP⟩

/-- A garbled message can appear beside the good one. -/
theorem exists_garbled (ha : a ∈ c) (hgarbles : garbles a b) :
    (channel garbles).Path (fun _ => True) c (b :: c) := by
  have hcopy : (channel garbles).Path (fun _ => True) c (a :: c) := .single trivial (.duplicate ha)
  have hgarble : (channel garbles).step (a :: c) .garble (b :: (a :: c).erase a) :=
    .garble List.mem_cons_self hgarbles
  rw [List.erase_cons_head] at hgarble
  exact .tail hcopy trivial hgarble

end Channel

/-! ## The channel between two hosts -/

/-- A message with the hosts it goes between. -/
structure Mail (H α : Type*) where
  source : H
  destination : H
  content : α
  deriving DecidableEq

variable {H α : Type*} [DecidableEq H]

/-- Garbling changes the content only. -/
inductive Mail.Garbles (garbles : α → α → Prop) : Mail H α → Mail H α → Prop
  | content {source destination : H} {x y : α} (hgarbles : garbles x y) :
      Garbles garbles ⟨source, destination, x⟩ ⟨source, destination, y⟩

/-- What is on its way from one host to another. -/
def between (source destination : H) (mail : List (Mail H α)) : List α :=
  mail.filterMap fun m =>
    if m.source = source ∧ m.destination = destination then some m.content else none

@[simp] theorem mem_between {source destination : H} {mail : List (Mail H α)} {x : α} :
    x ∈ between source destination mail ↔ ⟨source, destination, x⟩ ∈ mail := by
  simp only [between, List.mem_filterMap, Option.ite_none_right_eq_some, Option.some.injEq]
  constructor
  · rintro ⟨m, hm, ⟨rfl, rfl⟩, rfl⟩
    exact hm
  · intro hm
    exact ⟨_, hm, ⟨rfl, rfl⟩, rfl⟩

/-! ## One channel beside the network -/

section Covering

variable [DecidableEq α] {garbles : α → α → Prop} {mail mail' : List (Mail H α)} {l : List α}
  {source destination : H} {e : ChannelEvent}

/-- The network keeps the hosts that the mail goes between. -/
theorem ChannelStep.forall_hosts {P : H → H → Prop}
    (hstep : ChannelStep (Mail.Garbles garbles) mail e mail')
    (h : ∀ m ∈ mail, P m.source m.destination) : ∀ m ∈ mail', P m.source m.destination := by
  refine hstep.forall_mem (fun m m' hgarbles hm => ?_) h
  cases hgarbles with
  | content => exact hm

/-- A channel that holds everything between two hosts keeps up with the network. -/
theorem exists_covering (hcovers : between source destination mail ⊆ l)
    (hstep : ChannelStep (Mail.Garbles garbles) mail e mail') :
    ∃ l', (channel garbles).Path (fun _ => True) l l' ∧ l ⊆ l' ∧
      between source destination mail' ⊆ l' := by
  cases hstep with
  | lose _ =>
    refine ⟨l, .refl l, fun _ h => h, fun x hx => hcovers (mem_between.mpr ?_)⟩
    exact List.mem_of_mem_erase (mem_between.mp hx)
  | duplicate hmem =>
    refine ⟨l, .refl l, fun _ h => h, fun x hx => hcovers (mem_between.mpr ?_)⟩
    rcases List.mem_cons.mp (mem_between.mp hx) with rfl | hx
    · exact hmem
    · exact hx
  | garble hmem hgarbles =>
    obtain @⟨source', destination', y, z, hgarbles⟩ := hgarbles
    by_cases hsame : source' = source ∧ destination' = destination
    · obtain ⟨rfl, rfl⟩ := hsame
      refine ⟨z :: l, exists_garbled (hcovers (mem_between.mpr hmem)) hgarbles,
        List.subset_cons_self z l, fun x hx => ?_⟩
      rcases List.mem_cons.mp (mem_between.mp hx) with heq | hx
      · cases heq
        exact List.mem_cons_self
      · exact List.mem_cons_of_mem z (hcovers (mem_between.mpr (List.mem_of_mem_erase hx)))
    · refine ⟨l, .refl l, fun _ h => h, fun x hx => ?_⟩
      rcases List.mem_cons.mp (mem_between.mp hx) with heq | hx
      · cases heq
        exact absurd ⟨rfl, rfl⟩ hsame
      · exact hcovers (mem_between.mpr (List.mem_of_mem_erase hx))

/-- The network keeps up with a channel that holds nothing but what is between two
hosts. -/
theorem exists_covered {l' : List α} (hcovers : l ⊆ between source destination mail)
    (hstep : ChannelStep garbles l e l') :
    ∃ mail', (channel (Mail.Garbles garbles)).Path (fun _ => True) mail mail' ∧ mail ⊆ mail' ∧
      l' ⊆ between source destination mail' := by
  cases hstep with
  | lose _ =>
    exact ⟨mail, .refl mail, fun _ h => h, fun x hx => hcovers (List.mem_of_mem_erase hx)⟩
  | duplicate hmem =>
    refine ⟨mail, .refl mail, fun _ h => h, fun x hx => ?_⟩
    rcases List.mem_cons.mp hx with rfl | hx
    · exact hcovers hmem
    · exact hcovers hx
  | @garble y z hmem hgarbles =>
    refine ⟨⟨source, destination, z⟩ :: mail,
      exists_garbled (mem_between.mp (hcovers hmem)) (.content hgarbles),
      List.subset_cons_self _ mail, fun x hx => mem_between.mpr ?_⟩
    rcases List.mem_cons.mp hx with rfl | hx
    · exact List.mem_cons_self
    · exact List.mem_cons_of_mem _ (mem_between.mp (hcovers (List.mem_of_mem_erase hx)))

end Covering

end NetLabs.Lib
