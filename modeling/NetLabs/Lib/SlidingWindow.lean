import Mathlib.Order.Bounds.Basic
import Mathlib.Order.Interval.Set.Basic

/-!
# Sliding windows over the natural numbers

A sliding window is a base and a finite list of slots.  Everything below the
base is marked, and slot `i` says whether `base + i` is marked.  The set of
marked numbers is what the window stands for.

* `marked_set` and `marked_slide` are the two operations: marking one number
  adds it to the set, and sliding over leading marked slots changes nothing.
* `Settled` says that the first slot is free, so that the base is the least
  unmarked number (`isLeast_of_settled`).
* `base_le_base` compares the bases of two windows by comparing their sets,
  and `base_le_of_subset` bounds a base by a bound on the set.
-/

namespace NetLabs.Lib

/-- The length of the longest all-ones prefix. -/
def leadingOnes (slots : List Bool) : Nat := (slots.takeWhile id).length

/-- Drop the first `k` slots and refill with free ones. -/
def slide (slots : List Bool) (k : Nat) : List Bool :=
  slots.drop k ++ List.replicate (min k slots.length) false

/-- The set that a window stands for. -/
def marked (base : Nat) (slots : List Bool) : Set Nat :=
  {k | k < base ∨ base ≤ k ∧ slots[k - base]? = some true}

/-- The first slot is free. -/
def Settled (slots : List Bool) : Prop := slots[0]? ≠ some true

/-! ## Slots -/

theorem leadingOnes_le_length (slots : List Bool) : leadingOnes slots ≤ slots.length :=
  (List.takeWhile_prefix id).length_le

theorem getElem?_of_lt_leadingOnes {slots : List Bool} {i : Nat} (hi : i < leadingOnes slots) :
    slots[i]? = some true := by
  induction slots generalizing i with
  | nil => simp [leadingOnes] at hi
  | cons b slots ih =>
    cases b with
    | false => simp [leadingOnes] at hi
    | true =>
      cases i with
      | zero => rfl
      | succ i =>
        rw [List.getElem?_cons_succ]
        exact ih (by simpa [leadingOnes] using hi)

theorem getElem?_leadingOnes_ne (slots : List Bool) :
    slots[leadingOnes slots]? ≠ some true := by
  induction slots with
  | nil => simp
  | cons b slots ih =>
    cases b with
    | false => simp [leadingOnes]
    | true => simpa [leadingOnes] using ih

theorem slide_length (slots : List Bool) (k : Nat) :
    (slide slots k).length = slots.length := by
  simp only [slide, List.length_append, List.length_drop, List.length_replicate]
  omega

theorem getElem?_slide_eq_true {slots : List Bool} {k i : Nat} :
    (slide slots k)[i]? = some true ↔ slots[i + k]? = some true := by
  unfold slide
  rw [List.getElem?_append, List.length_drop]
  split
  · rw [List.getElem?_drop, Nat.add_comm]
  · rename_i hge
    have hout : slots[i + k]? = none := List.getElem?_eq_none (by omega)
    simp [hout, List.getElem?_replicate]

/-- Slot by slot: the slots move down by `k` and the free ones follow. -/
theorem getElem?_slide {slots : List Bool} {k i : Nat} (hi : i < slots.length) :
    (slide slots k)[i]? = if i + k < slots.length then slots[i + k]? else some false := by
  unfold slide
  rw [List.getElem?_append, List.length_drop]
  by_cases hlt : i + k < slots.length
  · rw [if_pos hlt, if_pos (show i < slots.length - k by omega), List.getElem?_drop, Nat.add_comm]
  · rw [if_neg hlt, if_neg (show ¬ i < slots.length - k by omega), List.getElem?_replicate,
      if_pos (show i - (slots.length - k) < min k slots.length by omega)]

theorem take_of_le_leadingOnes {slots : List Bool} {k : Nat} (hk : k ≤ leadingOnes slots) :
    slots.take k = List.replicate k true := by
  have hlen := leadingOnes_le_length slots
  apply List.ext_getElem?
  intro i
  rw [List.getElem?_take, List.getElem?_replicate]
  by_cases hi : i < k
  · rw [if_pos hi, if_pos hi]
    exact getElem?_of_lt_leadingOnes (by omega)
  · rw [if_neg hi, if_neg hi]

/-- Sliding over `k` leading ones loses exactly these `k` ones. -/
theorem count_slide {slots : List Bool} {k : Nat} (hk : k ≤ leadingOnes slots) :
    (slide slots k).count true + k = slots.count true := by
  have hsplit : slots.count true = (slots.take k).count true + (slots.drop k).count true := by
    rw [← List.count_append, List.take_append_drop]
  have hfree : (List.replicate (min k slots.length) false).count true = 0 := by
    rw [List.count_replicate]
    exact if_neg (by decide)
  rw [hsplit, take_of_le_leadingOnes hk, List.count_replicate_self, slide, List.count_append, hfree]
  omega

theorem settled_slide (slots : List Bool) : Settled (slide slots (leadingOnes slots)) := by
  unfold Settled
  rw [Ne, getElem?_slide_eq_true, Nat.zero_add]
  exact getElem?_leadingOnes_ne slots

/-- Marking a slot of a settled window moves the base exactly when the marked
slot is the first one. -/
theorem leadingOnes_set_pos {slots : List Bool} (h : 0 < slots.length) :
    0 < leadingOnes (slots.set 0 true) := by
  cases slots with
  | nil => simp at h
  | cons b slots => simp [leadingOnes]

/-! ## The marked set -/

theorem mem_marked {base k : Nat} {slots : List Bool} :
    k ∈ marked base slots ↔ k < base ∨ base ≤ k ∧ slots[k - base]? = some true :=
  Iff.rfl

theorem Iio_subset_marked (base : Nat) (slots : List Bool) :
    Set.Iio base ⊆ marked base slots := fun _ hk => Or.inl hk

/-- A window with no marked slot stands for the numbers below its base. -/
theorem marked_replicate_false (base n : Nat) :
    marked base (List.replicate n false) = Set.Iio base := by
  ext k
  simp [mem_marked, List.getElem?_replicate]

/-- Marking slot `i` adds `base + i`. -/
theorem marked_set (base : Nat) {slots : List Bool} {i : Nat} (hi : i < slots.length) :
    marked base (slots.set i true) = insert (base + i) (marked base slots) := by
  ext k
  rw [Set.mem_insert_iff, mem_marked, mem_marked]
  rcases Nat.lt_or_ge k base with hk | hk
  · simp [hk]
  · rw [List.getElem?_set]
    by_cases heq : i = k - base
    · subst heq
      simp [hi, show base + (k - base) = k by omega, hk]
    · simp [heq, show k ≠ base + i by omega]

/-- Sliding over leading marked slots keeps the set. -/
theorem marked_slide {base k : Nat} {slots : List Bool} (hk : k ≤ leadingOnes slots) :
    marked (base + k) (slide slots k) = marked base slots := by
  ext j
  simp only [mem_marked, getElem?_slide_eq_true]
  rcases Nat.lt_or_ge j (base + k) with hj | hj
  · by_cases hb : j < base
    · simp [hb, hj]
    · have hone : slots[j - base]? = some true := getElem?_of_lt_leadingOnes (by omega)
      simp [hj, hone, show base ≤ j by omega]
  · rw [show j - (base + k) + k = j - base by omega]
    simp [hj, show base ≤ j by omega, show ¬ j < base + k by omega,
      show ¬ j < base by omega]

/-- The base of a settled window is the least unmarked number. -/
theorem isLeast_of_settled {base : Nat} {slots : List Bool} (h : Settled slots) :
    IsLeast (marked base slots)ᶜ base := by
  refine ⟨?_, ?_⟩
  · rw [Set.mem_compl_iff, mem_marked]
    simpa [Settled] using h
  · intro k hk
    by_contra hlt
    exact hk (Or.inl (by omega))

/-- Bases follow the order of the sets. -/
theorem base_le_base {a b : Nat} {as bs : List Bool} (hsub : marked a as ⊆ marked b bs)
    (hb : Settled bs) : a ≤ b := by
  by_contra hlt
  exact (isLeast_of_settled hb).1 (hsub (Or.inl (by omega)))

theorem base_le_of_subset {base n : Nat} {slots : List Bool}
    (hsub : marked base slots ⊆ Set.Iio n) : base ≤ n := by
  by_contra hlt
  have hn : n < n := hsub (Or.inl (by omega))
  exact Nat.lt_irrefl n hn

end NetLabs.Lib
