import Mathlib.Data.List.TakeWhile

/-!
# Functions on C strings

A string is the memory from its first byte on, and it ends at the first 0 or where
the memory ends.  A pointer into it is the rest of the string, and `none` is the null
pointer.

* `strncasecmp` compares in the C locale, `strncasecmp_eq_zero_iff` says what it is
  used for with the length of one of its arguments.
* `strstr` is the first occurrence, `strstr_byte` its value for one byte.
-/

namespace NetLabs.Lib

def tolower (b : UInt8) : UInt8 := if 65 ≤ b ∧ b ≤ 90 then b + 32 else b

/-- The difference of the first bytes that differ in lower case, among the first `n`. -/
def strncasecmp : List UInt8 → List UInt8 → Nat → Int
  | _, _, 0 => 0
  | s, t, n + 1 =>
    let b := tolower (s.headD 0)
    let c := tolower (t.headD 0)
    if b ≠ c then (b.toNat : Int) - c.toNat
    else if b = 0 then 0
    else strncasecmp s.tail t.tail n

/-- The first place where `needle` stands. -/
def strstr : List UInt8 → List UInt8 → Option (List UInt8)
  | [], needle => if needle = [] then some [] else none
  | b :: s, needle =>
    if needle.isPrefixOf (b :: s) then some (b :: s)
    else if b = 0 then none
    else strstr s needle

/-! ## Lower case -/

/-- Only letters are changed. -/
theorem tolower_eq_iff {b c : UInt8} (hupper : ¬ (65 ≤ c ∧ c ≤ 90))
    (hlower : ¬ (97 ≤ c ∧ c ≤ 122)) : tolower b = c ↔ b = c := by
  rw [tolower]
  by_cases hb : 65 ≤ b ∧ b ≤ 90
  · rw [if_pos hb]
    constructor
    · intro heq
      subst heq
      exfalso
      apply hlower
      simp only [UInt8.le_iff_toNat_le, UInt8.toNat_add, UInt8.reduceToNat] at hb ⊢
      omega
    · intro heq
      rw [heq] at hb
      exact absurd hb hupper
  · rw [if_neg hb]

theorem takeWhile_map_tolower {c : UInt8} (hupper : ¬ (65 ≤ c ∧ c ≤ 90))
    (hlower : ¬ (97 ≤ c ∧ c ≤ 122)) (s : List UInt8) :
    (s.map tolower).takeWhile (· ≠ c) = (s.takeWhile (· ≠ c)).map tolower := by
  rw [List.takeWhile_map]
  congr 1
  refine congrArg (List.takeWhile · s) ?_
  funext b
  simp [tolower_eq_iff hupper hlower]

/-! ## Comparison and search -/

theorem prefix_takeWhile_iff {α : Type*} {p : α → Bool} {s t : List α} (ht : ∀ b ∈ t, p b) :
    t <+: s.takeWhile p ↔ t <+: s := by
  constructor
  · intro h
    exact h.trans (List.takeWhile_prefix p)
  · rintro ⟨rest, rfl⟩
    rw [List.takeWhile_append_of_pos ht]
    exact List.prefix_append _ _

/-- With the length of its second argument `strncasecmp` asks whether that is a prefix. -/
theorem strncasecmp_eq_zero_iff {s t : List UInt8} (ht : 0 ∉ t) :
    strncasecmp s t t.length = 0 ↔ t.map tolower <+: s.map tolower := by
  induction t generalizing s with
  | nil => simp [strncasecmp]
  | cons c t ih =>
    have hc : tolower c ≠ 0 := by
      rw [Ne, tolower_eq_iff (by decide) (by decide)]
      exact fun heq => ht (heq ▸ List.mem_cons_self)
    rw [List.length_cons, strncasecmp]
    show (if tolower (s.headD 0) ≠ tolower c then _ else _) = (0 : Int) ↔ _
    by_cases hb : tolower (s.headD 0) = tolower c
    · rw [if_neg (not_not.mpr hb), if_neg (hb ▸ hc), List.tail_cons,
        ih fun hmem => ht (List.mem_cons_of_mem _ hmem)]
      cases s with
      | nil => exact absurd hb.symm hc
      | cons b s => simp [show tolower b = tolower c from hb]
    · rw [if_pos hb]
      have hdiff : ((tolower (s.headD 0)).toNat : Int) - (tolower c).toNat ≠ 0 := by
        intro hzero
        exact hb (UInt8.toNat_inj.mp (by omega))
      refine iff_of_false hdiff ?_
      cases s with
      | nil => simp
      | cons b s => simp [show tolower c ≠ tolower b from fun heq => hb heq.symm]

/-- One byte is found exactly when the string has it. -/
theorem strstr_byte {c : UInt8} (hc : c ≠ 0) (s : List UInt8) :
    strstr s [c] = if c ∈ s.takeWhile (· ≠ 0) then some (s.dropWhile (· ≠ c)) else none := by
  induction s with
  | nil => simp [strstr]
  | cons b s ih =>
    rw [strstr, ih]
    by_cases hb : b = c
    · simp [hb, hc]
    · have hb' : c ≠ b := fun heq => hb heq.symm
      by_cases hzero : b = 0
      · simp [hzero, hc]
      · simp [hb, hb', hzero]

end NetLabs.Lib
