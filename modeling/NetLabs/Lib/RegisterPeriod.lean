import NetLabs.Lib.ShiftRegister
import Mathlib

/-!
# The period of a feedback shift register

The states that a register runs through from its lowest bit are the powers of one
element, and they return after a period.  Two bits that are fed less than a period
apart do not cancel.

* `times` multiplies two of the powers (`times_iterate`), so that a power with a
  large exponent is reached by a few squarings (`squares_eq`).
* `le_minimalPeriod` bounds the period from below by a prime.
* `feedBits_single` is the power that one bit leaves behind, and
  `iterate_injOn` tells two of them apart.
-/

namespace NetLabs.Lib

open Function

variable {w : Nat} {poly : BitVec w}

/-! ## Products -/

/-- The bits of a register, the lowest one first. -/
def registerBits (u : BitVec w) : List Bool := (List.range w).map u.getLsbD

/-- Shift, and add `v` for every bit. -/
def combine (poly v r : BitVec w) (bits : List Bool) : BitVec w :=
  bits.foldl (fun r b => shiftOut poly r ^^^ (if b = true then v else 0#w)) r

/-- The product of two powers of the register. -/
def times (poly v u : BitVec w) : BitVec w := combine poly v 0#w (registerBits u)

theorem combine_iterate (n : Nat) (v r : BitVec w) (bits : List Bool) :
    combine poly ((shiftOut poly)^[n] v) ((shiftOut poly)^[n] r) bits =
      (shiftOut poly)^[n] (combine poly v r bits) := by
  induction bits generalizing r with
  | nil => rfl
  | cons b bits ih =>
    have hnext : shiftOut poly ((shiftOut poly)^[n] r) ^^^
          (if b = true then (shiftOut poly)^[n] v else 0#w) =
        (shiftOut poly)^[n] (shiftOut poly r ^^^ (if b = true then v else 0#w)) := by
      rw [iterate_shiftOut_xor, ← iterate_succ_apply (shiftOut poly) n r,
        ← iterate_succ_apply' (shiftOut poly) n r]
      cases b with
      | false => simp
      | true => rfl
    show combine poly _ (_ ^^^ _) bits = (shiftOut poly)^[n] (combine poly v (_ ^^^ _) bits)
    rw [hnext, ih]

/-- Feeding is combining with what one bit leaves behind. -/
theorem combine_eq_feedBits (r : BitVec w) (bits : List Bool) :
    combine poly (shiftOut poly (lowBit w true)) r bits = feedBits poly r bits := by
  induction bits generalizing r with
  | nil => rfl
  | cons b bits ih =>
    have hfeed : shiftOut poly r ^^^ (if b = true then shiftOut poly (lowBit w true) else 0#w) =
        feed poly r b := by
      rw [feed, shiftOut_xor]
      cases b with
      | false => simp [lowBit]
      | true => rfl
    show combine poly _ (_ ^^^ _) bits = feedBits poly (feed poly r b) bits
    rw [hfeed, ih]

theorem wordOf_registerBits (u : BitVec w) : wordOf w (registerBits u) = u := by
  apply BitVec.eq_of_getLsbD_eq
  intro i hi
  rw [getLsbD_wordOf hi, registerBits, List.getD_eq_getElem?_getD, List.getElem?_map,
    List.getElem?_range hi]
  rfl

theorem times_iterate (n : Nat) (u : BitVec w) :
    times poly ((shiftOut poly)^[n + 1] (lowBit w true)) u = (shiftOut poly)^[n + w] u := by
  have hzero : (shiftOut poly)^[n] 0#w = 0#w := iterate_shiftOut_zero n
  have hlength : (registerBits u).length = w := by
    rw [registerBits, List.length_map, List.length_range]
  calc times poly ((shiftOut poly)^[n + 1] (lowBit w true)) u
      = combine poly ((shiftOut poly)^[n] (shiftOut poly (lowBit w true)))
          ((shiftOut poly)^[n] 0#w) (registerBits u) := by rw [hzero]; rfl
    _ = (shiftOut poly)^[n] (feedBits poly 0#w (registerBits u)) := by
      rw [combine_iterate, combine_eq_feedBits]
    _ = (shiftOut poly)^[n + w] u := by
      rw [feedBits_eq (le_of_eq hlength), hlength, wordOf_registerBits, BitVec.zero_xor,
        iterate_add_apply]

/-- The register after `d` squarings. -/
def squares (poly : BitVec w) : Nat → BitVec w
  | 0 => shiftOut poly (lowBit w true)
  | d + 1 => times poly (squares poly d) (squares poly d)

theorem squares_eq (d : Nat) :
    squares poly d = (shiftOut poly)^[(2 ^ d - 1) * w + 1] (lowBit w true) := by
  induction d with
  | zero => simp [squares]
  | succ d ih =>
    rw [squares, ih, times_iterate, ← iterate_add_apply]
    have hpow : 0 < 2 ^ d := Nat.two_pow_pos d
    have hexponent : (2 ^ d - 1) * w + w + ((2 ^ d - 1) * w + 1) = (2 ^ (d + 1) - 1) * w + 1 := by
      have hdouble : 2 ^ (d + 1) - 1 = (2 ^ d - 1) + (2 ^ d - 1) + 1 := by omega
      rw [hdouble]
      ring
    rw [hexponent]

/-! ## The period -/

/-- A prime that has to be in the period bounds it. -/
theorem le_minimalPeriod {α : Type*} {f : α → α} {x : α} {m p : Nat} (hp : p.Prime) (hm : 0 < m)
    (hperiod : IsPeriodicPt f (m * p) x) (hnot : ¬ IsPeriodicPt f m x) :
    p ≤ minimalPeriod f x := by
  have hdvd : minimalPeriod f x ∣ m * p := hperiod.minimalPeriod_dvd
  have hpos : 0 < minimalPeriod f x := hperiod.minimalPeriod_pos (Nat.mul_pos hm hp.pos)
  have hprime : p ∣ minimalPeriod f x := by
    by_contra hcoprime
    have hleft := (((Nat.Prime.coprime_iff_not_dvd hp).mpr hcoprime).symm.dvd_of_dvd_mul_right hdvd)
    exact hnot (isPeriodicPt_iff_minimalPeriod_dvd.mpr hleft)
  exact Nat.le_of_dvd hpos hprime

/-- The powers of one period are different. -/
theorem iterate_injOn {α : Type*} {f : α → α} {x : α} {m n : Nat} (hm : m < minimalPeriod f x)
    (hn : n < minimalPeriod f x) (h : f^[m] x = f^[n] x) : m = n :=
  iterate_injOn_Iio_minimalPeriod hm hn h

/-! ## One bit -/

/-- What one bit leaves behind. -/
theorem feedBits_single {bits : List Bool} {i : Nat} (hbits : ∀ k, bits[k]? = some true ↔ k = i) :
    feedBits poly 0#w bits = (shiftOut poly)^[bits.length - i] (lowBit w true) := by
  have hset := (hbits i).mpr rfl
  have ⟨hi, hget⟩ := List.getElem?_eq_some_iff.mp hset
  have hsplit : bits = bits.take i ++ true :: bits.drop (i + 1) := by
    rw [← hget, List.getElem_cons_drop, List.take_append_drop]
  have hbefore : ∀ b ∈ bits.take i, b = false := by
    intro b hb
    rw [← Bool.not_eq_true]
    rintro rfl
    have ⟨k, hk⟩ := List.mem_iff_getElem?.mp hb
    rw [List.getElem?_take] at hk
    split at hk
    · have hlow := (hbits k).mp hk
      omega
    · cases hk
  have hbehind : ∀ b ∈ bits.drop (i + 1), b = false := by
    intro b hb
    rw [← Bool.not_eq_true]
    rintro rfl
    have ⟨k, hk⟩ := List.mem_iff_getElem?.mp hb
    rw [List.getElem?_drop] at hk
    have hhigh := (hbits _).mp hk
    omega
  have hfirst : feedBits poly 0#w (true :: bits.drop (i + 1)) =
      feedBits poly (shiftOut poly (lowBit w true)) (bits.drop (i + 1)) := by
    show feedBits poly (feed poly 0#w true) _ = _
    rw [feed, BitVec.zero_xor]
  have hexponent : bits.length - i = (bits.drop (i + 1)).length + 1 := by
    rw [List.length_drop]
    omega
  rw [hexponent, iterate_succ_apply, ← feedBits_zeros hbehind, ← hfirst]
  conv_lhs => rw [hsplit]
  rw [feedBits_append, feedBits_zeros hbefore, iterate_shiftOut_zero]

theorem wordOf_eq_zero {bits : List Bool} (h : true ∉ bits) : wordOf w bits = 0#w := by
  apply BitVec.eq_of_getLsbD_eq
  intro i hi
  rw [getLsbD_wordOf hi, BitVec.getLsbD_zero, List.getD_eq_getElem?_getD]
  cases hget : bits[i]? with
  | none => rfl
  | some b =>
    cases b with
    | false => rfl
    | true => exact absurd (List.mem_of_getElem? hget) h

/-- A word with one bit is a power, too. -/
theorem iterate_wordOf_single {bits : List Bool} {i : Nat} (hi : i < w)
    (hbits : ∀ k, bits[k]? = some true ↔ k = i) :
    (shiftOut poly)^[i] (wordOf w bits) = lowBit w true := by
  have hbit : ∀ k < w, (wordOf w bits).getLsbD k = decide (k = i) := by
    intro k hk
    rw [getLsbD_wordOf hk, List.getD_eq_getElem?_getD]
    by_cases hki : k = i
    · rw [decide_eq_true hki, (hbits k).mpr hki]
      rfl
    · rw [decide_eq_false hki]
      have hclear : bits[k]? ≠ some true := mt (hbits k).mp hki
      cases hget : bits[k]? with
      | none => rfl
      | some b =>
        rw [hget] at hclear
        cases b with
        | false => rfl
        | true => exact absurd rfl hclear
  have hlow : ∀ k < i, (wordOf w bits).getLsbD k = false := by
    intro k hk
    rw [hbit k (by omega), decide_eq_false (by omega)]
  rw [iterate_shiftOut_of_low hlow]
  apply BitVec.eq_of_getLsbD_eq
  intro k hk
  rw [BitVec.getLsbD_ushiftRight, lowBit, BitVec.getLsbD_setWidth, BitVec.getLsbD_ofBool,
    decide_eq_true hk]
  by_cases hik : i + k < w
  · rw [hbit _ hik]
    simp
  · rw [BitVec.getLsbD_of_ge _ _ (by omega)]
    have hpos : k ≠ 0 := by omega
    simp [hpos]

end NetLabs.Lib
