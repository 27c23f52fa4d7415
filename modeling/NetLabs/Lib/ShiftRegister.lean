import Mathlib.Data.List.Basic
import Mathlib.Logic.Function.Iterate

/-!
# Feedback shift registers

A register that is shifted to the right, with feedback from the bit that falls
out, and the stream of bits that is fed into it.  This is the reflected form of
a cyclic redundancy check, for any width and any polynomial.

* `shiftOut` is one shift.  It is linear over exclusive or (`shiftOut_xor`), and
  injective when the polynomial has its top bit (`iterate_shiftOut_eq_zero`).
* `feedBits` feeds a list of bits.  Up to one register width of them can be fed
  at once (`feedBits_eq`), and what they do to a difference of two registers does
  not depend on the registers (`feedBits_xor`).
* `feedBits_burst_ne_zero`: a burst of bits that is no longer than the register
  leaves a difference.
-/

namespace NetLabs.Lib

variable {w : Nat} {poly : BitVec w}

/-! ## One shift -/

/-- Shift to the right.  The bit that falls out selects the polynomial. -/
def shiftOut (poly r : BitVec w) : BitVec w :=
  (if r.getLsbD 0 = true then poly else 0#w) ^^^ (r >>> 1)

theorem shiftOut_of_even {r : BitVec w} (h : r.getLsbD 0 = false) : shiftOut poly r = r >>> 1 := by
  simp [shiftOut, h]

@[simp] theorem shiftOut_zero : shiftOut poly 0#w = 0#w := by
  simp [shiftOut]

/-- A shift is linear. -/
theorem shiftOut_xor (r r' : BitVec w) :
    shiftOut poly (r ^^^ r') = shiftOut poly r ^^^ shiftOut poly r' := by
  have hcancel : ∀ x y z : BitVec w, x ^^^ y ^^^ (x ^^^ z) = y ^^^ z := by
    intro x y z
    rw [BitVec.xor_assoc, ← BitVec.xor_assoc y x z, BitVec.xor_comm y x, BitVec.xor_assoc x y z,
      ← BitVec.xor_assoc x x, BitVec.xor_self, BitVec.zero_xor]
  unfold shiftOut
  rw [BitVec.getLsbD_xor, BitVec.ushiftRight_xor_distrib]
  cases r.getLsbD 0 <;> cases r'.getLsbD 0
  · simp
  · simp only [Bool.false_xor, Bool.false_eq_true, if_true, if_false,
      BitVec.zero_xor]
    ac_rfl
  · simp only [Bool.true_xor, Bool.not_false, Bool.false_eq_true, if_true, if_false,
      BitVec.zero_xor]
    ac_rfl
  · simp [hcancel]

/-- Only the zero register is shifted to zero. -/
theorem shiftOut_eq_zero (hpoly : poly.msb = true) {r : BitVec w} (h : shiftOut poly r = 0#w) :
    r = 0#w := by
  have hlow : r.getLsbD 0 = false := by
    by_contra hset
    rw [Bool.not_eq_false] at hset
    rw [shiftOut, if_pos hset, BitVec.xor_eq_zero_iff] at h
    rw [h, BitVec.msb_ushiftRight] at hpoly
    simp at hpoly
  rw [shiftOut_of_even hlow] at h
  apply BitVec.eq_of_getLsbD_eq
  intro i hi
  cases i with
  | zero => simpa using hlow
  | succ i =>
    have hbit : (r >>> 1).getLsbD i = false := by
      rw [h]
      simp
    rw [BitVec.getLsbD_ushiftRight, Nat.add_comm] at hbit
    simpa using hbit

/-- A shift undoes a shift to the left that drops no bit. -/
theorem shiftOut_shiftLeft {r : BitVec w} (h : r.msb = false) : shiftOut poly (r <<< 1) = r := by
  have heven : (r <<< 1).getLsbD 0 = false := by
    simp
  rw [shiftOut_of_even heven]
  apply BitVec.eq_of_getLsbD_eq
  intro i hi
  rw [BitVec.getLsbD_ushiftRight, BitVec.getLsbD_shiftLeft]
  by_cases hlast : 1 + i < w
  · simp [hlast]
  · have htop : i = w - 1 := by omega
    rw [BitVec.msb_eq_getLsbD_last] at h
    rw [htop, h]
    simp
    omega

/-! ## Several shifts -/

@[simp] theorem iterate_shiftOut_zero (n : Nat) : (shiftOut poly)^[n] 0#w = 0#w := by
  induction n with
  | zero => rfl
  | succ n ih => rw [Function.iterate_succ_apply, shiftOut_zero, ih]

theorem iterate_shiftOut_xor (n : Nat) (r r' : BitVec w) :
    (shiftOut poly)^[n] (r ^^^ r') = (shiftOut poly)^[n] r ^^^ (shiftOut poly)^[n] r' := by
  induction n generalizing r r' with
  | zero => rfl
  | succ n ih => simp only [Function.iterate_succ_apply, shiftOut_xor, ih]

theorem iterate_shiftOut_eq_zero (hpoly : poly.msb = true) (n : Nat) {r : BitVec w}
    (h : (shiftOut poly)^[n] r = 0#w) : r = 0#w := by
  induction n generalizing r with
  | zero => exact h
  | succ n ih =>
    rw [Function.iterate_succ_apply] at h
    exact shiftOut_eq_zero hpoly (ih h)

/-- While zeros fall out, the register only moves. -/
theorem iterate_shiftOut_of_low {n : Nat} {r : BitVec w} (h : ∀ i < n, r.getLsbD i = false) :
    (shiftOut poly)^[n] r = r >>> n := by
  induction n with
  | zero => simp
  | succ n ih =>
    have hprev : (shiftOut poly)^[n] r = r >>> n := ih fun i hi => h i (by omega)
    have heven : (r >>> n).getLsbD 0 = false := by
      rw [BitVec.getLsbD_ushiftRight]
      exact h n (by omega)
    rw [Function.iterate_succ_apply', hprev, shiftOut_of_even heven, BitVec.shiftRight_add]

/-- The low bits of a register are all that `n` shifts depend on: the others only
move. -/
theorem iterate_shiftOut_eq (n : Nat) (r : BitVec w) :
    (shiftOut poly)^[n] r = (shiftOut poly)^[n] ((r.setWidth n).setWidth w) ^^^ (r >>> n) := by
  let low := (r.setWidth n).setWidth w
  let high := r ^^^ low
  have hsplit : r = low ^^^ high := by
    show r = low ^^^ (r ^^^ low)
    rw [BitVec.xor_comm r low, ← BitVec.xor_assoc, BitVec.xor_self, BitVec.zero_xor]
  have hclear : ∀ i < n, high.getLsbD i = false := by
    intro i hi
    by_cases hw : i < w
    · simp [high, low, hi, hw]
    · exact BitVec.getLsbD_of_ge _ _ (by omega)
  have hmoved : high >>> n = r >>> n := by
    apply BitVec.eq_of_getLsbD_eq
    intro i hi
    simp [high, low]
  calc (shiftOut poly)^[n] r = (shiftOut poly)^[n] (low ^^^ high) := by rw [← hsplit]
    _ = (shiftOut poly)^[n] low ^^^ (r >>> n) := by
      rw [iterate_shiftOut_xor, iterate_shiftOut_of_low hclear, hmoved]

/-! ## Feeding bits -/

/-- A bit at the lower end of a register. -/
def lowBit (w : Nat) (b : Bool) : BitVec w := (BitVec.ofBool b).setWidth w

/-- Feed one bit. -/
def feed (poly r : BitVec w) (b : Bool) : BitVec w := shiftOut poly (r ^^^ lowBit w b)

/-- Feed a list of bits. -/
def feedBits (poly r : BitVec w) (bits : List Bool) : BitVec w := bits.foldl (feed poly) r

/-- The bits in a register, the first one lowest. -/
def wordOf (w : Nat) (bits : List Bool) : BitVec w := (BitVec.ofBoolListLE bits).setWidth w

theorem getLsbD_wordOf {bits : List Bool} {i : Nat} (hi : i < w) :
    (wordOf w bits).getLsbD i = bits.getD i false := by
  rw [wordOf, BitVec.getLsbD_setWidth, BitVec.getLsbD_ofBoolListLE, decide_eq_true hi,
    Bool.true_and]

theorem wordOf_cons (b : Bool) (bits : List Bool) :
    wordOf w (b :: bits) = lowBit w b ^^^ (wordOf w bits <<< 1) := by
  apply BitVec.eq_of_getLsbD_eq
  intro i hi
  rw [getLsbD_wordOf hi, BitVec.getLsbD_xor, BitVec.getLsbD_shiftLeft, lowBit,
    BitVec.getLsbD_setWidth, BitVec.getLsbD_ofBool]
  cases i with
  | zero => simp [hi]
  | succ i =>
    have hprev : i < w := by omega
    simp [hi, getLsbD_wordOf hprev]

/-- Up to one width of bits can be fed at once. -/
theorem feedBits_eq {bits : List Bool} (h : bits.length ≤ w) (r : BitVec w) :
    feedBits poly r bits = (shiftOut poly)^[bits.length] (r ^^^ wordOf w bits) := by
  induction bits generalizing r with
  | nil =>
    have hword : wordOf w [] = 0#w := by simp [wordOf, BitVec.ofBoolListLE]
    simp [feedBits, hword]
  | cons b bits ih =>
    rw [List.length_cons] at h
    have htop : (wordOf w bits).msb = false := by
      rw [BitVec.msb_eq_getLsbD_last, getLsbD_wordOf (by omega), List.getD_eq_getElem?_getD,
        List.getElem?_eq_none (by omega)]
      rfl
    show feedBits poly (feed poly r b) bits = _
    rw [ih (by omega), wordOf_cons, List.length_cons, Function.iterate_succ_apply,
      ← BitVec.xor_assoc, shiftOut_xor, shiftOut_shiftLeft htop]
    rfl

theorem feedBits_append (r : BitVec w) (bits bits' : List Bool) :
    feedBits poly r (bits ++ bits') = feedBits poly (feedBits poly r bits) bits' :=
  List.foldl_append

/-- Zeros only shift. -/
theorem feedBits_zeros {bits : List Bool} (h : ∀ b ∈ bits, b = false) (r : BitVec w) :
    feedBits poly r bits = (shiftOut poly)^[bits.length] r := by
  induction bits generalizing r with
  | nil => rfl
  | cons b bits ih =>
    have hb : b = false := h b List.mem_cons_self
    have hfeed : feed poly r b = shiftOut poly r := by
      rw [hb, feed, lowBit]
      simp
    show feedBits poly (feed poly r b) bits = _
    rw [ih (fun b hb => h b (List.mem_cons_of_mem _ hb)), hfeed, List.length_cons,
      Function.iterate_succ_apply]

theorem lowBit_xor (b b' : Bool) : lowBit w (b ^^ b') = lowBit w b ^^^ lowBit w b' := by
  apply BitVec.eq_of_getLsbD_eq
  intro i hi
  simp only [lowBit, BitVec.getLsbD_xor, BitVec.getLsbD_setWidth, BitVec.getLsbD_ofBool]
  cases i <;> simp [hi]

/-- The difference of two registers is fed the difference of their bits. -/
theorem feedBits_xor {bits bits' : List Bool} (h : bits.length = bits'.length)
    (r r' : BitVec w) :
    feedBits poly (r ^^^ r') (List.zipWith xor bits bits') =
      feedBits poly r bits ^^^ feedBits poly r' bits' := by
  induction bits generalizing bits' r r' with
  | nil =>
    cases bits' with
    | nil => rfl
    | cons => cases h
  | cons b bits ih =>
    cases bits' with
    | nil => cases h
    | cons b' bits' =>
      have hfeed : feed poly (r ^^^ r') (b ^^ b') = feed poly r b ^^^ feed poly r' b' := by
        rw [feed, feed, feed, ← shiftOut_xor, lowBit_xor]
        congr 1
        ac_rfl
      show feedBits poly (feed poly (r ^^^ r') (b ^^ b')) (List.zipWith xor bits bits') = _
      rw [hfeed, ih (Nat.succ.inj h)]
      rfl

/-! ## Bursts -/

/-- A burst that is no longer than the register leaves a difference: it is not
zero when it has been fed, and no zero behind it makes it so. -/
theorem feedBits_burst_ne_zero (hpoly : poly.msb = true) {bits : List Bool} (hset : true ∈ bits)
    {k : Nat} (hwindow : ∀ i, bits[i]? = some true → k ≤ i ∧ i < k + w) :
    feedBits poly 0#w bits ≠ 0#w := by
  let burst := (bits.drop k).take w
  have hsplit : bits = bits.take k ++ (burst ++ (bits.drop k).drop w) := by
    rw [List.take_append_drop, List.take_append_drop]
  have hbefore : ∀ b ∈ bits.take k, b = false := by
    intro b hb
    rw [← Bool.not_eq_true]
    rintro rfl
    have ⟨i, hi⟩ := List.mem_iff_getElem?.mp hb
    rw [List.getElem?_take] at hi
    split at hi
    · have hlow := (hwindow i hi).1
      omega
    · cases hi
  have hbehind : ∀ b ∈ (bits.drop k).drop w, b = false := by
    intro b hb
    rw [← Bool.not_eq_true]
    rintro rfl
    have ⟨i, hi⟩ := List.mem_iff_getElem?.mp hb
    rw [List.drop_drop, List.getElem?_drop] at hi
    have hhigh := (hwindow _ hi).2
    omega
  have hburst : wordOf w burst ≠ 0#w := by
    have ⟨i, hi⟩ := List.mem_iff_getElem?.mp hset
    have ⟨hlow, hhigh⟩ := hwindow i hi
    have hbit : burst[i - k]? = some true := by
      rw [List.getElem?_take_of_lt (by omega), List.getElem?_drop, Nat.add_sub_cancel' hlow, hi]
    intro hzero
    have hlsb : (wordOf w burst).getLsbD (i - k) = true := by
      rw [getLsbD_wordOf (by omega), List.getD_eq_getElem?_getD, hbit]
      rfl
    rw [hzero] at hlsb
    simp at hlsb
  intro hzero
  rw [hsplit, feedBits_append, feedBits_append, feedBits_zeros hbefore, iterate_shiftOut_zero,
    feedBits_zeros hbehind, feedBits_eq (List.length_take_le _ _)] at hzero
  have hfed := iterate_shiftOut_eq_zero hpoly _ (iterate_shiftOut_eq_zero hpoly _ hzero)
  rw [BitVec.zero_xor] at hfed
  exact hburst hfed

/-- Two streams that differ by a burst leave different registers. -/
theorem feedBits_ne_of_burst (hpoly : poly.msb = true) {bits bits' : List Bool}
    (hlength : bits.length = bits'.length) (hset : true ∈ List.zipWith xor bits bits') {k : Nat}
    (hwindow : ∀ i, (List.zipWith xor bits bits')[i]? = some true → k ≤ i ∧ i < k + w)
    (r : BitVec w) : feedBits poly r bits ≠ feedBits poly r bits' := by
  intro heq
  apply feedBits_burst_ne_zero hpoly hset hwindow
  have hxor : feedBits poly (r ^^^ r) (List.zipWith xor bits bits') = _ :=
    feedBits_xor hlength r r
  rw [heq, BitVec.xor_self, BitVec.xor_self] at hxor
  exact hxor

/-! ## Bytes -/

/-- The bits of a byte, the least significant one first. -/
def byteBits (b : UInt8) : List Bool := (List.range 8).map b.toBitVec.getLsbD

/-- The bits of a byte string, in the order in which they are fed. -/
def bitsOf (bytes : List UInt8) : List Bool := bytes.flatMap byteBits

@[simp] theorem byteBits_length (b : UInt8) : (byteBits b).length = 8 := by
  simp [byteBits]

@[simp] theorem bitsOf_length (bytes : List UInt8) : (bitsOf bytes).length = 8 * bytes.length := by
  induction bytes with
  | nil => rfl
  | cons b bytes ih =>
    rw [bitsOf, List.flatMap_cons, List.length_append, byteBits_length, ← bitsOf, ih,
      List.length_cons]
    omega

theorem bitsOf_append (bytes bytes' : List UInt8) :
    bitsOf (bytes ++ bytes') = bitsOf bytes ++ bitsOf bytes' :=
  List.flatMap_append

/-- Feed the bits of a byte at once. -/
theorem feedBits_byte (hw : 8 ≤ w) (r : BitVec w) (b : UInt8) :
    feedBits poly r (byteBits b) = (shiftOut poly)^[8] (r ^^^ b.toBitVec.setWidth w) := by
  have hword : wordOf w (byteBits b) = b.toBitVec.setWidth w := by
    apply BitVec.eq_of_getLsbD_eq
    intro i hi
    rw [getLsbD_wordOf hi, BitVec.getLsbD_setWidth, byteBits, List.getD_eq_getElem?_getD,
      List.getElem?_map]
    by_cases hlow : i < 8
    · rw [List.getElem?_range hlow, decide_eq_true hi, Bool.true_and]
      rfl
    · rw [List.getElem?_eq_none (by rw [List.length_range]; omega),
        BitVec.getLsbD_of_ge b.toBitVec i (by omega), Bool.and_false]
      rfl
  rw [feedBits_eq (by rw [byteBits_length]; exact hw), byteBits_length, hword]

theorem xor_bitsOf (bytes bytes' : List UInt8) :
    List.zipWith xor (bitsOf bytes) (bitsOf bytes') = bitsOf (List.zipWith (· ^^^ ·) bytes bytes') := by
  induction bytes generalizing bytes' with
  | nil => rfl
  | cons b bytes ih =>
    cases bytes' with
    | nil => simp [bitsOf]
    | cons b' bytes' =>
      have hbyte : List.zipWith xor (byteBits b) (byteBits b') = byteBits (b ^^^ b') := by
        simp [byteBits, List.range_succ]
      rw [bitsOf, bitsOf, List.flatMap_cons, List.flatMap_cons,
        List.zipWith_append (by simp), hbyte]
      exact congrArg (byteBits (b ^^^ b') ++ ·) (ih bytes')

end NetLabs.Lib
