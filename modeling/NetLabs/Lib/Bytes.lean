import Mathlib.Data.List.Basic
import Mathlib.Tactic.Ring

/-!
# Numbers and fields in byte lists

* `toLE w n` and `ofLE` are the little-endian bytes of a number and back;
  `toBE` and `ofBE` are the same in network order.  `ofLE_toLE` and
  `ofBE_toBE` are the round trips, which keep the number modulo `256 ^ w`;
  `toLE_ofLE` and `toBE_ofBE` are the round trips of the bytes.
* `slice` reads a field of a byte list and `splice` overwrites one.  Fields are
  read back from a concatenation with `slice_append_right` and `slice_append`.
-/

namespace NetLabs.Lib

/-! ## Numbers -/

/-- The `w` little-endian bytes of `n`. -/
def toLE : (w n : Nat) → List UInt8
  | 0, _ => []
  | w + 1, n => UInt8.ofNat n :: toLE w (n / 256)

/-- The number with the given little-endian bytes. -/
def ofLE : List UInt8 → Nat
  | [] => 0
  | b :: bytes => b.toNat + 256 * ofLE bytes

/-- The `w` bytes of `n` in network order. -/
def toBE (w n : Nat) : List UInt8 := (toLE w n).reverse

/-- The number with the given bytes in network order. -/
def ofBE (bytes : List UInt8) : Nat := ofLE bytes.reverse

@[simp] theorem toLE_length (w n : Nat) : (toLE w n).length = w := by
  induction w generalizing n with
  | zero => rfl
  | succ w ih => rw [toLE, List.length_cons, ih]

@[simp] theorem toBE_length (w n : Nat) : (toBE w n).length = w := by
  rw [toBE, List.length_reverse, toLE_length]

theorem ofLE_toLE (w n : Nat) : ofLE (toLE w n) = n % 256 ^ w := by
  induction w generalizing n with
  | zero => simp [toLE, ofLE, Nat.mod_one]
  | succ w ih =>
    have hsplit : n % 256 ^ (w + 1) = n % 256 + 256 * (n / 256 % 256 ^ w) := by
      rw [Nat.pow_succ', Nat.mod_mul]
    rw [toLE, ofLE, ih, hsplit, UInt8.toNat_ofNat']

theorem ofLE_lt (bytes : List UInt8) : ofLE bytes < 256 ^ bytes.length := by
  induction bytes with
  | nil => decide
  | cons b bytes ih =>
    have hb := b.toNat_lt
    rw [ofLE, List.length_cons, Nat.pow_succ']
    omega

/-- The bytes of a number that was read from as many bytes. -/
theorem toLE_ofLE {bytes : List UInt8} {w : Nat} (h : bytes.length = w) :
    toLE w (ofLE bytes) = bytes := by
  induction bytes generalizing w with
  | nil =>
    subst h
    rfl
  | cons b bytes ih =>
    have hb := b.toNat_lt
    have hlow : UInt8.ofNat (b.toNat + 256 * ofLE bytes) = b := by
      rw [← UInt8.toNat_inj, UInt8.toNat_ofNat']
      omega
    have hhigh : (b.toNat + 256 * ofLE bytes) / 256 = ofLE bytes := by omega
    subst h
    rw [List.length_cons, ofLE, toLE, hlow, hhigh, ih rfl]

theorem ofBE_lt (bytes : List UInt8) : ofBE bytes < 256 ^ bytes.length := by
  have hlt := ofLE_lt bytes.reverse
  rw [List.length_reverse] at hlt
  exact hlt

theorem toBE_ofBE {bytes : List UInt8} {w : Nat} (h : bytes.length = w) :
    toBE w (ofBE bytes) = bytes := by
  rw [toBE, ofBE, toLE_ofLE (by rw [List.length_reverse, h]), List.reverse_reverse]

theorem ofBE_toBE (w n : Nat) : ofBE (toBE w n) = n % 256 ^ w := by
  rw [ofBE, toBE, List.reverse_reverse, ofLE_toLE]

/-! ## Fields -/

section Fields

variable {α : Type*}

/-- The field of `width` elements at `offset`. -/
def slice (bytes : List α) (offset width : Nat) : List α := (bytes.drop offset).take width

/-- Overwrite the elements from `offset` on. -/
def splice (bytes : List α) (offset : Nat) (new : List α) : List α :=
  bytes.take offset ++ new ++ bytes.drop (offset + new.length)

theorem splice_length {bytes new : List α} {offset : Nat}
    (h : offset + new.length ≤ bytes.length) : (splice bytes offset new).length = bytes.length := by
  simp only [splice, List.length_append, List.length_take, List.length_drop]
  omega

/-- Overwriting changes the elements in its range only. -/
theorem getElem?_splice {bytes new : List α} {offset : Nat}
    (h : offset + new.length ≤ bytes.length) (i : Nat) :
    (splice bytes offset new)[i]? =
      if offset ≤ i ∧ i < offset + new.length then new[i - offset]? else bytes[i]? := by
  have hfront : (bytes.take offset).length = offset := by
    rw [List.length_take]
    omega
  rw [splice, List.append_assoc, List.getElem?_append, hfront]
  by_cases hlow : i < offset
  · rw [if_pos hlow, if_neg (by omega), List.getElem?_take_of_lt hlow]
  · rw [if_neg hlow, List.getElem?_append]
    by_cases hin : i < offset + new.length
    · rw [if_pos (by omega), if_pos (by omega)]
    · rw [if_neg (by omega), if_neg (by omega), List.getElem?_drop]
      congr 1
      omega

theorem splice_zero (bytes new : List α) :
    splice bytes 0 new = new ++ bytes.drop new.length := by
  rw [splice, List.take_zero, List.nil_append, Nat.zero_add]

/-- Overwriting one part of a concatenation by another of the same length. -/
theorem splice_append {front old back new : List α} (h : old.length = new.length) :
    splice (front ++ (old ++ back)) front.length new = front ++ (new ++ back) := by
  rw [splice, List.take_left, ← h, ← List.length_append, ← List.append_assoc front old,
    List.drop_left, List.append_assoc]

/-- A field behind `front` is read after skipping it. -/
theorem slice_append_right {front bytes : List α} {offset width : Nat}
    (h : front.length ≤ offset) :
    slice (front ++ bytes) offset width = slice bytes (offset - front.length) width := by
  rw [slice, slice, List.drop_append, List.drop_eq_nil_of_le h, List.nil_append]

/-- The field that a list starts with. -/
theorem slice_append {field rest : List α} {width : Nat} (h : field.length = width) :
    slice (field ++ rest) 0 width = field := by
  subst h
  simp [slice]

/-- A field in front of the elements that are overwritten. -/
theorem slice_splice {bytes new : List α} {offset width start : Nat}
    (h : start + width ≤ offset) (hoffset : offset ≤ bytes.length) :
    slice (splice bytes offset new) start width = slice bytes start width := by
  have hfront : (bytes.take offset).length = offset := List.length_take_of_le hoffset
  have hsplit : bytes = bytes.take offset ++ bytes.drop offset := (List.take_append_drop _ _).symm
  have hfield : ∀ back : List α, slice (bytes.take offset ++ back) start width =
      slice (bytes.take offset) start width := by
    intro back
    rw [slice, slice, List.drop_append_of_le_length (by omega), List.take_append_of_le_length]
    rw [List.length_drop]
    omega
  rw [splice, List.append_assoc, hfield]
  conv_rhs => rw [hsplit, hfield]

theorem slice_length {bytes : List α} {offset width : Nat} (h : offset + width ≤ bytes.length) :
    (slice bytes offset width).length = width := by
  rw [slice, List.length_take, List.length_drop]
  omega

/-- A byte list is what stands before, in and behind a field. -/
theorem take_slice_drop (bytes : List α) (offset width : Nat) :
    bytes.take offset ++ (slice bytes offset width ++ bytes.drop (offset + width)) = bytes := by
  rw [slice, ← List.drop_drop, List.take_append_drop, List.take_append_drop]

/-- Two adjacent fields make one. -/
theorem slice_add (bytes : List α) (offset width width' : Nat) :
    slice bytes offset (width + width') =
      slice bytes offset width ++ slice bytes (offset + width) width' := by
  rw [slice, List.take_add, List.drop_drop]
  rfl

end Fields

end NetLabs.Lib
