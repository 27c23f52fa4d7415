import NetLabs.Lib.Ring
import Mathlib.Tactic.NormNum

/-!
# Sequence numbers

The sequence-number arithmetic of `util.c`.  A sequence number is a `uint32_t`
that the code keeps below `2 ^ 31` by masking every sum; a number that arrives
in a packet is not masked.

* `seqnumAdd_toNat_int` and `sqnDis_eq` read the masked operations as
  arithmetic on the ring of size `2 ^ 31`.
* `seqnumIsIn_iff` says that the membership test of a non-empty window agrees
  with the distance, and `interval_law_iff` that only the empty window is read
  differently.
* The lemmas on `seqnumAdd start k` read window tests as comparisons of packet
  indices counted from the starting number.
-/

namespace NetLabs.Rtp

open NetLabs.Lib

/-- Logically add `addnum` to `seqnum`. -/
def seqnumAdd (seqnum : UInt32) (addnum : Int) : UInt32 :=
  (seqnum + UInt32.ofInt addnum) &&& 0x7fffffff

/-- The logical distance from `l` to `r`.  The mask keeps the C `int`
non-negative. -/
def sqnDis (l r : UInt32) : Nat := ((r - l) &&& 0x7fffffff).toNat

/-- Check if `seqnum` is logically in `[l, r)`. -/
def seqnumIsIn (seqnum l r : UInt32) : Bool :=
  if l < r then
    seqnum ≥ l && seqnum < r
  else
    seqnum ≥ l || seqnum < r

/-- The number every connection starts from: `INT32_MAX`. -/
def getRandomSeqnum : UInt32 := 0x7fffffff

/-- A number on the 31-bit ring. -/
def IsSeqnum (seqnum : UInt32) : Prop := seqnum.toNat < 2 ^ 31

instance : DecidablePred IsSeqnum :=
  fun seqnum => inferInstanceAs (Decidable (seqnum.toNat < 2 ^ 31))

/-! ## Masked operations as ring operations -/

private theorem toNat_mask (a : UInt32) : (a &&& 0x7fffffff).toNat = a.toNat % 2 ^ 31 := by
  rw [UInt32.toNat_and, show (0x7fffffff : UInt32).toNat = 2 ^ 31 - 1 from rfl,
    Nat.and_two_pow_sub_one_eq_mod]

theorem isSeqnum_seqnumAdd (s : UInt32) (k : Int) : IsSeqnum (seqnumAdd s k) := by
  unfold IsSeqnum seqnumAdd
  rw [toNat_mask]
  exact Nat.mod_lt _ (by norm_num)

private theorem toNat_ofInt (k : Int) : (UInt32.ofInt k).toNat = (k % 2 ^ 32).toNat := by
  have hnonneg : 0 ≤ k % 2 ^ 32 := Int.emod_nonneg _ (by norm_num)
  have hlt : k % 2 ^ 32 < 2 ^ 32 := Int.emod_lt_of_pos _ (by norm_num)
  rw [UInt32.ofInt, UInt32.toNat_ofNat']
  exact Nat.mod_eq_of_lt (by omega)

theorem seqnumAdd_toNat_int (s : UInt32) (k : Int) :
    ((seqnumAdd s k).toNat : Int) = ((s.toNat : Int) + k) % 2 ^ 31 := by
  unfold seqnumAdd
  rw [toNat_mask, UInt32.toNat_add, toNat_ofInt]
  omega

theorem seqnumAdd_toNat (s : UInt32) (k : Nat) :
    (seqnumAdd s k).toNat = (s.toNat + k) % 2 ^ 31 := by
  have h := seqnumAdd_toNat_int s k
  omega

@[simp] theorem seqnumAdd_seqnumAdd (s : UInt32) (a b : Int) :
    seqnumAdd (seqnumAdd s a) b = seqnumAdd s (a + b) := by
  apply UInt32.toNat_inj.mp
  have h1 := seqnumAdd_toNat_int (seqnumAdd s a) b
  have h2 := seqnumAdd_toNat_int s a
  have h3 := seqnumAdd_toNat_int s (a + b)
  omega

theorem seqnumAdd_zero {s : UInt32} (hs : IsSeqnum s) : seqnumAdd s 0 = s := by
  apply UInt32.toNat_inj.mp
  have h := seqnumAdd_toNat_int s 0
  unfold IsSeqnum at hs
  omega

theorem sqnDis_eq (l r : UInt32) : sqnDis l r = ringDist (2 ^ 31) l.toNat r.toNat := by
  unfold sqnDis ringDist
  rw [toNat_mask, UInt32.toNat_sub]
  have hl := UInt32.toNat_lt l
  omega

/-- The membership test of a window of width `w` agrees with the distance, for
windows that wrap and windows that do not. -/
theorem seqnumIsIn_iff {s l : UInt32} {w : Nat} (hs : IsSeqnum s) (hl : IsSeqnum l)
    (hpos : 0 < w) (hw : w < 2 ^ 31) :
    seqnumIsIn s l (seqnumAdd l w) = true ↔ sqnDis l s < w := by
  rw [sqnDis_eq, ← arc_iff hl hs hpos hw, ← seqnumAdd_toNat]
  unfold seqnumIsIn
  simp only [UInt32.lt_iff_toNat_lt, UInt32.le_iff_toNat_le, ge_iff_le]
  split <;> simp [*]

/-- With both ends equal the test takes the branch of a window that wraps, and
accepts every number. -/
theorem seqnumIsIn_self (s l : UInt32) : seqnumIsIn s l l = true := by
  unfold seqnumIsIn
  rw [if_neg (UInt32.lt_irrefl l), Bool.or_eq_true]
  rcases UInt32.le_total l s with hle | hle
  · exact Or.inl (decide_eq_true hle)
  · by_cases heq : s = l
    · exact Or.inl (decide_eq_true (show s ≥ l from heq ▸ UInt32.le_refl s))
    · exact Or.inr (decide_eq_true (UInt32.lt_of_le_of_ne hle heq))

/-- Membership agrees with the distance exactly in the windows that hold a
number.  The empty window is read as the whole ring. -/
theorem interval_law_iff {s l : UInt32} {w : Nat} (hs : IsSeqnum s) (hl : IsSeqnum l)
    (hw : w < 2 ^ 31) :
    (seqnumIsIn s l (seqnumAdd l w) = true ↔ sqnDis l s < w) ↔ 0 < w := by
  rcases Nat.eq_zero_or_pos w with rfl | hpos
  · have hend : seqnumAdd l (0 : Nat) = l := seqnumAdd_zero hl
    rw [hend]
    simp [seqnumIsIn_self]
  · show _ ↔ 0 < w
    simp only [hpos, iff_true]
    exact seqnumIsIn_iff hs hl hpos hw

/-- A window of three numbers that wraps: `0` is at distance `1` of the last
number before the turn. -/
theorem interval_law_wrapping :
    (seqnumIsIn 0 0x7fffffff (seqnumAdd 0x7fffffff 3) = true ↔ sqnDis 0x7fffffff 0 < 3) ↔ 0 < 3 :=
  interval_law_iff (s := 0) (l := 0x7fffffff) (w := 3) (by decide) (by decide) (by decide)

/-- The window of width `0` at `0` is said to hold `5`. -/
theorem interval_law_fails_empty :
    IsSeqnum 5 ∧ IsSeqnum 0 ∧
      ¬ (seqnumIsIn 5 0 (seqnumAdd 0 (0 : Nat)) = true ↔ sqnDis 0 5 < 0) := by
  decide

/-- A number is its distance ahead of any other number. -/
theorem seqnumAdd_sqnDis {l q : UInt32} (hl : IsSeqnum l) (hq : IsSeqnum q) :
    seqnumAdd l (sqnDis l q) = q := by
  apply UInt32.toNat_inj.mp
  rw [seqnumAdd_toNat, sqnDis_eq, ringDist_eq hl hq]
  unfold IsSeqnum at hl hq
  split <;> omega

/-! ## Numbers counted from a starting number -/

section Indexed

variable {start : UInt32}

/-- The distance between packets `a` and `b` when `b` is not behind `a`. -/
theorem sqnDis_index (a b : Nat) (hab : a ≤ b) (hb : b - a < 2 ^ 31) :
    sqnDis (seqnumAdd start a) (seqnumAdd start b) = b - a := by
  rw [sqnDis_eq, seqnumAdd_toNat, seqnumAdd_toNat, ringDist_offset _ _ _ hab hb]

/-- The distance to a packet `b` that is behind `a` is almost a full turn. -/
theorem sqnDis_index_back (a b : Nat) (hba : b < a) (ha : a - b < 2 ^ 31) :
    sqnDis (seqnumAdd start a) (seqnumAdd start b) = 2 ^ 31 - (a - b) := by
  rw [sqnDis_eq, seqnumAdd_toNat, seqnumAdd_toNat, ringDist_offset_back _ _ _ hba ha]

/-- Two packets less than a turn apart have different numbers. -/
theorem seqnumAdd_inj {a b : Nat} (ha : a < 2 ^ 31) (hb : b < 2 ^ 31)
    (h : seqnumAdd start a = seqnumAdd start b) : a = b := by
  have hnat := congrArg UInt32.toNat h
  rw [seqnumAdd_toNat, seqnumAdd_toNat] at hnat
  omega

/-- A window of width `w` from packet `a` holds exactly the packets
`a, ..., a + w - 1`, as long as no packet is a full turn away from it. -/
theorem seqnumIsIn_index {a b w : Nat} (hpos : 0 < w) (hw : w < 2 ^ 31)
    (hahead : b < a + 2 ^ 31) (hbehind : a + w ≤ b + 2 ^ 31) :
    seqnumIsIn (seqnumAdd start b) (seqnumAdd start a) (seqnumAdd start (a + w : Nat)) = true ↔
      a ≤ b ∧ b < a + w := by
  have hend : seqnumAdd start (a + w : Nat) = seqnumAdd (seqnumAdd start a) w := by
    rw [seqnumAdd_seqnumAdd]
    norm_cast
  rw [hend, seqnumIsIn_iff (isSeqnum_seqnumAdd _ _) (isSeqnum_seqnumAdd _ _) hpos hw]
  rcases Nat.lt_or_ge b a with hba | hab
  · rw [sqnDis_index_back a b hba (by omega)]
    omega
  · rw [sqnDis_index a b hab (by omega)]
    omega

end Indexed

end NetLabs.Rtp
