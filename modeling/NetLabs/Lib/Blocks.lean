import Mathlib.Order.Bounds.Image
import Mathlib.Order.Interval.Set.Nat
import Mathlib.Tactic.Ring

/-!
# Blocks in a byte store

A store is memory that starts unwritten.  Block `k` of a blocked layout starts
at `k * B` and holds the list `block k` of at most `B` elements.

* `HoldsBlocks` says which blocks are in the store, and writing one block adds
  it to them (`HoldsBlocks.overwrite`).
* `blockEnd` is where a block ends.  The least upper bound of the ends is the
  extent of the stored data; `extent_insert` and `extent_succ` are the two ways
  to keep track of it.
* `read_of_holdsBlocks` reads all blocks back as one list, for blocks that are
  full up to the last one (`Blocked`).
-/

namespace NetLabs.Lib

variable {α : Type*}

/-- Write `bytes` at `offset`. -/
def overwrite (mem : Nat → Option α) (offset : Nat) (bytes : List α) : Nat → Option α :=
  fun i => if offset ≤ i ∧ i < offset + bytes.length then bytes[i - offset]? else mem i

/-- The first `n` elements of a store. -/
def readFirst (mem : Nat → Option α) (n : Nat) : List (Option α) := (List.range n).map mem

/-- The blocks in `S` are in the store, each at its place. -/
def HoldsBlocks (B : Nat) (block : Nat → List α) (mem : Nat → Option α) (S : Set Nat) : Prop :=
  ∀ k ∈ S, ∀ j < (block k).length, mem (k * B + j) = (block k)[j]?

/-- Where block `k` ends. -/
def blockEnd (B : Nat) (block : Nat → List α) (k : Nat) : Nat := k * B + (block k).length

/-- The first `n` blocks are full, except that the last one may be short. -/
structure Blocked (B : Nat) (block : Nat → List α) (n : Nat) : Prop where
  le : ∀ k < n, (block k).length ≤ B
  full : ∀ k, k + 1 < n → (block k).length = B

variable {B n k : Nat} {block : Nat → List α} {mem : Nat → Option α} {S : Set Nat}

/-! ## Writing -/

theorem overwrite_of_mem {offset j : Nat} {bytes : List α} (hj : j < bytes.length) :
    overwrite mem offset bytes (offset + j) = bytes[j]? := by
  simp [overwrite, hj]

theorem overwrite_of_disjoint {offset i : Nat} {bytes : List α}
    (hi : i < offset ∨ offset + bytes.length ≤ i) : overwrite mem offset bytes i = mem i := by
  unfold overwrite
  rw [if_neg (by omega)]

/-- Two different blocks do not overlap. -/
theorem block_disjoint {a b i : Nat} (hab : a < b) (hi : i ≤ B) : a * B + i ≤ b * B := by
  have hmul : (a + 1) * B ≤ b * B := Nat.mul_le_mul_right B hab
  rw [Nat.add_mul, Nat.one_mul] at hmul
  omega

theorem holdsBlocks_empty : HoldsBlocks B block mem ∅ := fun _ hk => hk.elim

/-- Writing block `k` adds it to the blocks in the store. -/
theorem HoldsBlocks.overwrite (h : HoldsBlocks B block mem S)
    (hS : ∀ j ∈ S, (block j).length ≤ B) (hk : (block k).length ≤ B) :
    HoldsBlocks B block (overwrite mem (k * B) (block k)) (insert k S) := by
  intro a ha j hj
  rcases Nat.lt_trichotomy a k with hlt | rfl | hgt
  · have haS : a ∈ S := by
      rcases ha with rfl | ha
      · omega
      · exact ha
    have hshort := hS a haS
    have hle : a * B + (j + 1) ≤ k * B := block_disjoint hlt (by omega)
    rw [overwrite_of_disjoint (by omega), h a haS j hj]
  · exact overwrite_of_mem hj
  · have haS : a ∈ S := by
      rcases ha with rfl | ha
      · omega
      · exact ha
    have hle := block_disjoint hgt hk
    rw [overwrite_of_disjoint (by omega), h a haS j hj]

/-! ## The extent of the stored blocks -/

theorem extent_empty : IsLUB (blockEnd B block '' ∅) 0 := by
  rw [Set.image_empty]
  exact isLUB_empty

/-- Adding any block takes the maximum with its end. -/
theorem extent_insert {m : Nat} (h : IsLUB (blockEnd B block '' S) m) (k : Nat) :
    IsLUB (blockEnd B block '' insert k S) (max (blockEnd B block k) m) := by
  rw [Set.image_insert_eq]
  exact h.insert _

/-- A block that follows others ends behind them. -/
theorem blockEnd_le (hB : Blocked B block n) {a : Nat} (hak : a ≤ k) (hk : k < n) :
    blockEnd B block a ≤ blockEnd B block k := by
  rcases Nat.lt_or_eq_of_le hak with hlt | rfl
  · have hle := block_disjoint hlt (hB.le a (by omega))
    unfold blockEnd
    omega
  · exact Nat.le_refl _

/-- The extent of the first `k + 1` blocks is the end of the last of them. -/
theorem extent_Iio_succ (hB : Blocked B block n) (hk : k < n) :
    IsLUB (blockEnd B block '' Set.Iio (k + 1)) (blockEnd B block k) := by
  refine IsGreatest.isLUB ⟨⟨k, Nat.lt_succ_self k, rfl⟩, ?_⟩
  rintro _ ⟨a, ha, rfl⟩
  exact blockEnd_le hB (Nat.lt_succ_iff.mp ha) hk

/-- The extent of the first `k` blocks is `k * B` as long as another block
follows. -/
theorem extent_Iio (hB : Blocked B block n) (hk : k < n) {m : Nat}
    (h : IsLUB (blockEnd B block '' Set.Iio k) m) : m = k * B := by
  cases k with
  | zero =>
    rw [show Set.Iio 0 = (∅ : Set Nat) from Set.Iio_bot] at h
    rw [h.unique extent_empty, Nat.zero_mul]
  | succ k =>
    rw [h.unique (extent_Iio_succ hB (by omega)), blockEnd, hB.full k hk, Nat.add_mul,
      Nat.one_mul]

/-- Adding the next block moves the extent by its length. -/
theorem extent_succ (hB : Blocked B block n) (hk : k < n) {m : Nat}
    (h : IsLUB (blockEnd B block '' Set.Iio k) m) :
    IsLUB (blockEnd B block '' Set.Iio (k + 1)) (m + (block k).length) := by
  rw [extent_Iio hB hk h]
  exact extent_Iio_succ hB hk

/-! ## Reading back -/

/-- The first `n` blocks as one list. -/
def joinBlocks (block : Nat → List α) (n : Nat) : List α := (List.range n).flatMap block

theorem joinBlocks_succ (block : Nat → List α) (n : Nat) :
    joinBlocks block (n + 1) = joinBlocks block n ++ block n := by
  simp [joinBlocks, List.range_succ]

theorem joinBlocks_length (hfull : ∀ k < n, (block k).length = B) :
    (joinBlocks block n).length = n * B := by
  induction n with
  | zero => simp [joinBlocks]
  | succ n ih =>
    rw [joinBlocks_succ, List.length_append, ih fun k hk => hfull k (by omega),
      hfull n (Nat.lt_succ_self n), Nat.add_mul, Nat.one_mul]

theorem joinBlocks_congr {block' : Nat → List α} (h : ∀ k < n, block k = block' k) :
    joinBlocks block n = joinBlocks block' n := by
  induction n with
  | zero => rfl
  | succ n ih =>
    rw [joinBlocks_succ, joinBlocks_succ, ih fun k hk => h k (by omega), h n (Nat.lt_succ_self n)]

/-- Empty blocks at the end do not count. -/
theorem joinBlocks_of_nil {m : Nat} (hmn : m ≤ n) (h : ∀ k, m ≤ k → k < n → block k = []) :
    joinBlocks block n = joinBlocks block m := by
  induction hmn with
  | refl => rfl
  | step hle ih =>
    rw [joinBlocks_succ, h _ hle (Nat.lt_succ_self _), List.append_nil]
    exact ih fun k hm hk => h k hm (Nat.lt_succ_of_lt hk)

theorem readFirst_add (mem : Nat → Option α) (a b : Nat) :
    readFirst mem (a + b) = readFirst mem a ++ (List.range b).map fun j => mem (a + j) := by
  simp [readFirst, List.range_add]

theorem readFirst_take (mem : Nat → Option α) (a b : Nat) :
    (readFirst mem b).take a = readFirst mem (min a b) := by
  rw [readFirst, ← List.map_take, List.take_range, readFirst]

/-- Reading behind `m` elements where a list is stored. -/
theorem map_range_of_stored {bytes : List α} {m : Nat}
    (h : ∀ j < bytes.length, mem (m + j) = bytes[j]?) :
    ((List.range bytes.length).map fun j => mem (m + j)) = bytes.map some := by
  apply List.ext_getElem
  · simp
  · intro j hj hj'
    have hlt : j < bytes.length := by simpa using hj
    simp [h j hlt, hlt]

/-- Full blocks read back as one list. -/
theorem readFirst_full (hfull : ∀ k < n, (block k).length = B)
    (h : HoldsBlocks B block mem (Set.Iio n)) :
    readFirst mem (n * B) = (joinBlocks block n).map some := by
  induction n with
  | zero => simp [readFirst, joinBlocks]
  | succ n ih =>
    have hfront := ih (fun k hk => hfull k (by omega)) (fun k hk => h k (Nat.lt_succ_of_lt hk))
    have hlast := map_range_of_stored (h n (Nat.lt_succ_self n))
    rw [Nat.add_mul, Nat.one_mul, readFirst_add, hfront, joinBlocks_succ, List.map_append]
    rw [hfull n (Nat.lt_succ_self n)] at hlast
    rw [hlast]

/-- All blocks read back as one list, up to their extent. -/
theorem read_of_holdsBlocks (hB : Blocked B block n) (h : HoldsBlocks B block mem (Set.Iio n))
    {m : Nat} (hm : IsLUB (blockEnd B block '' Set.Iio n) m) :
    readFirst mem m = (joinBlocks block n).map some := by
  cases n with
  | zero =>
    rw [show Set.Iio 0 = (∅ : Set Nat) from Set.Iio_bot] at hm
    rw [hm.unique extent_empty]
    rfl
  | succ n =>
    have hfront := readFirst_full (fun k hk => hB.full k (by omega))
      (fun k hk => h k (Nat.lt_succ_of_lt hk) : HoldsBlocks B block mem (Set.Iio n))
    have hlast := map_range_of_stored (h n (Nat.lt_succ_self n))
    rw [hm.unique (extent_Iio_succ hB (Nat.lt_succ_self n)), blockEnd, readFirst_add, hfront,
      hlast, joinBlocks_succ, List.map_append]

end NetLabs.Lib
