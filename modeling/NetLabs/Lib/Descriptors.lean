import Mathlib

/-!
# The lowest free number

How a system hands out descriptors: a new one is the lowest number that is not
taken.

* `IsLowestFree` is that number.
* `IsLowestFree.lt_iff`: when all taken numbers lie below a bound, the next one
  does so too exactly if there are fewer of them than the bound.
-/

namespace NetLabs.Lib

/-- The lowest number, from 0 on, that is not taken. -/
structure IsLowestFree (taken : Set ℤ) (fd : ℤ) : Prop where
  nonneg : 0 ≤ fd
  free : fd ∉ taken
  lowest : ∀ x, 0 ≤ x → x < fd → x ∈ taken

theorem ncard_Ico (a : ℤ) (n : ℕ) : (Set.Ico a (a + n)).ncard = n := by
  rw [← Finset.coe_Ico, Set.ncard_coe_finset, Int.card_Ico]
  omega

theorem IsLowestFree.lt_iff {taken : Set ℤ} {fd : ℤ} (h : IsLowestFree taken fd) {n : ℕ}
    (hbound : taken ⊆ Set.Ico 0 (n : ℤ)) : fd < n ↔ taken.ncard < n := by
  have hcard : (Set.Ico 0 (n : ℤ)).ncard = n := by
    have hcard := ncard_Ico 0 n
    rw [zero_add] at hcard
    exact hcard
  have hfinite : (Set.Ico 0 (n : ℤ)).Finite := Set.finite_Ico _ _
  constructor
  · intro hlt
    have hss : taken ⊂ Set.Ico 0 (n : ℤ) := by
      refine ⟨hbound, fun hall => ?_⟩
      exact h.free (hall ⟨h.nonneg, hlt⟩)
    have hless := Set.ncard_lt_ncard hss hfinite
    rw [hcard] at hless
    exact hless
  · intro hless
    by_contra hge
    have hall : Set.Ico 0 (n : ℤ) ⊆ taken := by
      intro x hx
      exact h.lowest x hx.1 (lt_of_lt_of_le hx.2 (not_lt.mp hge))
    have hle := Set.ncard_le_ncard hall (hfinite.subset hbound)
    rw [hcard] at hle
    omega

/-- Behind a block of taken numbers from 0 on, the next one is its end. -/
theorem isLowestFree_Ico (n : ℕ) : IsLowestFree (Set.Ico 0 (n : ℤ)) n where
  nonneg := Int.natCast_nonneg n
  free hmem := lt_irrefl _ hmem.2
  lowest _ hnonneg hlt := ⟨hnonneg, hlt⟩

end NetLabs.Lib
