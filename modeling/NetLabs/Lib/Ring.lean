import Mathlib.Tactic.TypeStar

/-!
# Arcs of a ring of numbers

Numbers below a modulus `M` form a ring.  `ringDist M l r` is the number of
steps forward from `l` to `r`, and the arc of width `w` that starts at `l`
holds the numbers at distance less than `w`.

* `ringDist_eq` removes the modulus for numbers that are below it.
* `arc_iff` is the law behind every window test that compares two end points:
  the comparison agrees with the distance on every arc that is neither empty
  nor full, whether it wraps or not.
* `ringDist_offset` reads a distance between two positions that are given as
  offsets from one origin.
-/

namespace NetLabs.Lib

/-- The number of steps forward from `l` to `r` on the ring of size `M`. -/
def ringDist (M l r : Nat) : Nat := (r + (M - l % M)) % M

/-- For numbers on the ring the distance is a difference, plus one turn when
`r` is behind `l`. -/
theorem ringDist_eq {M l r : Nat} (hl : l < M) (hr : r < M) :
    ringDist M l r = if l ≤ r then r - l else r + M - l := by
  unfold ringDist
  rw [Nat.mod_eq_of_lt hl]
  split
  · rename_i hle
    rw [show r + (M - l) = (r - l) + M by omega, Nat.add_mod_right,
      Nat.mod_eq_of_lt (by omega)]
  · rw [show r + (M - l) = r + M - l by omega, Nat.mod_eq_of_lt (by omega)]

/-- Moving forward by `w` less than one turn lands at distance `w`. -/
theorem ringDist_add {M l w : Nat} (hl : l < M) (hw : w < M) :
    ringDist M l ((l + w) % M) = w := by
  have hr : (l + w) % M < M := Nat.mod_lt _ (by omega)
  rw [ringDist_eq hl hr]
  by_cases hturn : l + w < M
  · rw [Nat.mod_eq_of_lt hturn]
    simp
  · have hmod : (l + w) % M = l + w - M := by
      rw [Nat.mod_eq_sub_mod (by omega), Nat.mod_eq_of_lt (by omega)]
    rw [hmod, if_neg (by omega)]
    omega

/-- Membership in the arc from `l` of width `w`, tested by comparing with the
two end points, agrees with the distance. -/
theorem arc_iff {M l s w : Nat} (hl : l < M) (hs : s < M) (hpos : 0 < w) (hw : w < M) :
    (if l < (l + w) % M then l ≤ s ∧ s < (l + w) % M
      else l ≤ s ∨ s < (l + w) % M) ↔ ringDist M l s < w := by
  rw [ringDist_eq hl hs]
  by_cases hturn : l + w < M
  · rw [Nat.mod_eq_of_lt hturn, if_pos (by omega)]
    split <;> omega
  · have hmod : (l + w) % M = l + w - M := by
      rw [Nat.mod_eq_sub_mod (by omega), Nat.mod_eq_of_lt (by omega)]
    rw [hmod, if_neg (by omega)]
    split <;> omega

/-- The distance between two positions given as offsets `a` and `b` from one
origin, when `b` is at most one turn ahead of `a`. -/
theorem ringDist_offset {M : Nat} (o a b : Nat) (hab : a ≤ b) (hturn : b - a < M) :
    ringDist M ((o + a) % M) ((o + b) % M) = b - a := by
  have hl : (o + a) % M < M := Nat.mod_lt _ (by omega)
  have hb : (o + b) % M = ((o + a) % M + (b - a)) % M := by
    rw [Nat.mod_add_mod, show o + a + (b - a) = o + b by omega]
  rw [hb, ringDist_add hl hturn]

/-- The same for a position `b` that is behind `a`. -/
theorem ringDist_offset_back {M : Nat} (o a b : Nat) (hba : b < a) (hturn : a - b < M) :
    ringDist M ((o + a) % M) ((o + b) % M) = M - (a - b) := by
  have h := ringDist_offset (M := M) o a (b + M) (by omega) (by omega)
  rw [show o + (b + M) = o + b + M by omega, Nat.add_mod_right] at h
  omega

end NetLabs.Lib
