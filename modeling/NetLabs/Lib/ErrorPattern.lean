import NetLabs.Lib.ShiftRegister
import Mathlib

/-!
# Error patterns

What a channel does to a byte string when it flips some of its bits.

* `corrupt` flips the bits that an error pattern of the same size has set, and
  `flipBit` flips one.  `flipBit_eq_corrupt` makes the one a case of the other.
* `BurstWithin` says that the set bits stand close together.  A shift register
  that is at least as wide tells the corrupted bytes from the original ones
  (`feedBits_corrupt_ne`).
-/

namespace NetLabs.Lib

/-- Flip the bits that `error` has set. -/
def corrupt (bytes error : List UInt8) : List UInt8 := List.zipWith (· ^^^ ·) bytes error

@[simp] theorem corrupt_length {bytes error : List UInt8} (h : bytes.length = error.length) :
    (corrupt bytes error).length = bytes.length := by
  rw [corrupt, List.length_zipWith, h, Nat.min_self]

theorem corrupt_append {front front' : List UInt8} (h : front.length = front'.length)
    (back back' : List UInt8) :
    corrupt (front ++ back) (front' ++ back') = corrupt front front' ++ corrupt back back' :=
  List.zipWith_append h

theorem corrupt_zeros {bytes error : List UInt8} (h : bytes.length = error.length)
    (hzero : ∀ b ∈ error, b = 0) : corrupt bytes error = bytes := by
  induction bytes generalizing error with
  | nil => rfl
  | cons b bytes ih =>
    cases error with
    | nil => cases h
    | cons e error =>
      have he : e = 0 := hzero e List.mem_cons_self
      have hrest := ih (Nat.succ.inj h) fun b hb => hzero b (List.mem_cons_of_mem _ hb)
      show (b ^^^ e) :: corrupt bytes error = _
      rw [hrest, he, UInt8.xor_zero]

theorem corrupt_self (bytes : List UInt8) : ∀ b ∈ corrupt bytes bytes, b = 0 := by
  intro b hb
  rw [corrupt, List.zipWith_self, List.mem_map] at hb
  obtain ⟨a, _, rfl⟩ := hb
  exact UInt8.xor_self

/-- The difference of the corrupted bytes and the original ones is the error. -/
theorem corrupt_corrupt {bytes error : List UInt8} (h : bytes.length = error.length) :
    corrupt bytes (corrupt bytes error) = error := by
  induction bytes generalizing error with
  | nil =>
    cases error with
    | nil => rfl
    | cons => cases h
  | cons b bytes ih =>
    cases error with
    | nil => cases h
    | cons e error =>
      show (b ^^^ (b ^^^ e)) :: corrupt bytes (corrupt bytes error) = _
      rw [ih (Nat.succ.inj h), ← UInt8.xor_assoc, UInt8.xor_self, UInt8.zero_xor]

/-- Only the error without a set bit changes nothing. -/
theorem zeros_of_corrupt_eq {bytes error : List UInt8} (h : bytes.length = error.length)
    (heq : corrupt bytes error = bytes) : ∀ b ∈ error, b = 0 := by
  have herror := corrupt_corrupt h
  rw [heq] at herror
  rw [← herror]
  exact corrupt_self bytes

/-! ## Positions of bits -/

theorem getElem?_bitsOf {bytes : List UInt8} {q : Nat} {b : UInt8} (h : bytes[q]? = some b)
    {j : Nat} (hj : j < 8) : (bitsOf bytes)[8 * q + j]? = some (b.toBitVec.getLsbD j) := by
  induction bytes generalizing q with
  | nil => cases h
  | cons b' bytes ih =>
    rw [bitsOf, List.flatMap_cons]
    cases q with
    | zero =>
      have hb : b' = b := by simpa using h
      rw [List.getElem?_append_left (by rw [byteBits_length]; omega), hb, byteBits,
        List.getElem?_map, Nat.mul_zero, Nat.zero_add, List.getElem?_range hj]
      rfl
    | succ q =>
      have hindex : 8 * (q + 1) + j - (byteBits b').length = 8 * q + j := by
        rw [byteBits_length]
        omega
      rw [List.getElem?_append_right (by rw [byteBits_length]; omega), hindex]
      exact ih h

/-- A set bit belongs to a byte. -/
theorem exists_of_getElem?_bitsOf {bytes : List UInt8} {i : Nat}
    (h : (bitsOf bytes)[i]? = some true) :
    ∃ b, bytes[i / 8]? = some b ∧ b.toBitVec.getLsbD (i % 8) = true := by
  have ⟨hi, _⟩ := List.getElem?_eq_some_iff.mp h
  rw [bitsOf_length] at hi
  have hq : i / 8 < bytes.length := by omega
  refine ⟨bytes[i / 8], List.getElem?_eq_getElem hq, ?_⟩
  have hbit := getElem?_bitsOf (List.getElem?_eq_getElem hq) (Nat.mod_lt i (by decide : 0 < 8))
  rw [Nat.div_add_mod, h] at hbit
  exact (Option.some.inj hbit).symm

/-- Bytes without a set bit. -/
theorem eq_zero_of_bits {bytes : List UInt8} {q : Nat} {b : UInt8} (h : bytes[q]? = some b)
    (hclear : ∀ j < 8, (bitsOf bytes)[8 * q + j]? ≠ some true) : b = 0 := by
  apply UInt8.toBitVec_inj.mp
  apply BitVec.eq_of_getLsbD_eq
  intro j hj
  have hbit := hclear j hj
  rw [getElem?_bitsOf h hj] at hbit
  show b.toBitVec.getLsbD j = (0#8).getLsbD j
  rw [BitVec.getLsbD_zero]
  simpa using hbit

theorem not_mem_bitsOf_zeros {bytes : List UInt8} (h : ∀ b ∈ bytes, b = 0) :
    true ∉ bitsOf bytes := by
  intro hset
  have ⟨i, hi⟩ := List.mem_iff_getElem?.mp hset
  have ⟨b, hb, hbit⟩ := exists_of_getElem?_bitsOf hi
  rw [h b (List.mem_of_getElem? hb)] at hbit
  simp at hbit

/-! ## Bursts -/

/-- Some bits are set, and all of them are among `width` consecutive ones. -/
structure BurstWithin (width : Nat) (error : List UInt8) : Prop where
  set : true ∈ bitsOf error
  window : ∃ k, ∀ i, (bitsOf error)[i]? = some true → k ≤ i ∧ i < k + width

/-- A burst that is no longer than the register changes what it holds in the
end. -/
theorem feedBits_corrupt_ne {w : Nat} {poly : BitVec w} (hpoly : poly.msb = true)
    {bytes error : List UInt8} (h : bytes.length = error.length) (hburst : BurstWithin w error)
    (r : BitVec w) :
    feedBits poly r (bitsOf bytes) ≠ feedBits poly r (bitsOf (corrupt bytes error)) := by
  have hdiff : List.zipWith xor (bitsOf bytes) (bitsOf (corrupt bytes error)) = bitsOf error := by
    rw [xor_bitsOf]
    exact congrArg bitsOf (corrupt_corrupt h)
  obtain ⟨k, hwindow⟩ := hburst.window
  apply feedBits_ne_of_burst hpoly
  · rw [bitsOf_length, bitsOf_length, corrupt_length h]
  · rw [hdiff]
    exact hburst.set
  · rw [hdiff]
    exact hwindow

/-! ## One bit -/

/-- Flip one bit. -/
def flipBit (bytes : List UInt8) (i : Nat) : List UInt8 :=
  bytes.modify (i / 8) (· ^^^ UInt8.ofNat (2 ^ (i % 8)))

/-- The error pattern with one bit set. -/
def oneBit (size i : Nat) : List UInt8 := flipBit (List.replicate size 0) i

@[simp] theorem oneBit_length (size i : Nat) : (oneBit size i).length = size := by
  rw [oneBit, flipBit, List.length_modify, List.length_replicate]

theorem getElem?_oneBit {size i q : Nat} (hq : q < size) :
    (oneBit size i)[q]? = some (if i / 8 = q then UInt8.ofNat (2 ^ (i % 8)) else 0) := by
  rw [oneBit, flipBit, List.getElem?_modify, List.getElem?_replicate_of_lt hq]
  show some (if i / 8 = q then 0 ^^^ UInt8.ofNat (2 ^ (i % 8)) else 0) = _
  rw [UInt8.zero_xor]

theorem flipBit_eq_corrupt (bytes : List UInt8) (i : Nat) :
    flipBit bytes i = corrupt bytes (oneBit bytes.length i) := by
  apply List.ext_getElem?
  intro q
  rw [flipBit, List.getElem?_modify, corrupt, List.getElem?_zipWith]
  by_cases hq : q < bytes.length
  · rw [getElem?_oneBit hq, List.getElem?_eq_getElem hq]
    by_cases hi : i / 8 = q
    · simp [hi]
    · simp [hi]
  · rw [List.getElem?_eq_none (by omega)]
    rfl

/-- The only bit that is set. -/
theorem getElem?_bitsOf_oneBit {size i : Nat} (hi : i < 8 * size) (k : Nat) :
    (bitsOf (oneBit size i))[k]? = some true ↔ k = i := by
  have hpow : 2 ^ (i % 8) < 2 ^ 8 := Nat.pow_lt_pow_right (by decide) (Nat.mod_lt i (by decide))
  have hbyte : ∀ j, (UInt8.ofNat (2 ^ (i % 8))).toBitVec.getLsbD j = decide (i % 8 = j) := by
    intro j
    show (2 ^ (i % 8) % 2 ^ 8).testBit j = _
    rw [Nat.mod_eq_of_lt hpow, Nat.testBit_two_pow]
  constructor
  · intro hset
    have ⟨b, hb, hbit⟩ := exists_of_getElem?_bitsOf hset
    have ⟨hq, _⟩ := List.getElem?_eq_some_iff.mp hb
    rw [oneBit_length] at hq
    rw [getElem?_oneBit hq] at hb
    by_cases hsame : i / 8 = k / 8
    · rw [if_pos hsame] at hb
      rw [← Option.some.inj hb, hbyte, decide_eq_true_iff] at hbit
      omega
    · rw [if_neg hsame] at hb
      rw [← Option.some.inj hb] at hbit
      simp at hbit
  · intro hk
    have hq : i / 8 < size := by omega
    have hb := getElem?_oneBit (i := i) hq
    rw [if_pos rfl] at hb
    have hbit := getElem?_bitsOf hb (Nat.mod_lt i (by decide : 0 < 8))
    rw [Nat.div_add_mod, hbyte, decide_eq_true rfl] at hbit
    rw [hk, hbit]

theorem oneBit_burst {size i width : Nat} (hi : i < 8 * size) (hwidth : 0 < width) :
    BurstWithin width (oneBit size i) where
  set := List.mem_of_getElem? ((getElem?_bitsOf_oneBit hi i).mpr rfl)
  window := by
    refine ⟨i, ?_⟩
    intro k hk
    rw [getElem?_bitsOf_oneBit hi] at hk
    omega

end NetLabs.Lib
