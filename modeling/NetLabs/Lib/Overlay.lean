import NetLabs.Lib.Blocks
import Mathlib.Data.Set.Finite.Lemmas
import Mathlib.Logic.Function.Basic

/-!
# A store filled by block writes

Blocks of at most `B` elements are written to a fresh store, each at a multiple
of `B`, in any order, the same place more than once if it happens so.

* `overlay` is what stands at each place in the end, and `Represents` says that
  a store holds exactly these blocks.  `represents_fill` connects the two.
* `length_le_overlay`, `exists_of_length_overlay` and `exists_of_mem_overlay`
  trace the overlay back to the writes.
* `read_extent` and `read_join_iff` say when the store reads back without holes,
  up to the end of the last write and up to the total length.
* Writes of no elements leave store and overlay alone, but they move the extent
  (`overlay_filter`, `fill_filter`, `extent_filter_le`).
-/

namespace NetLabs.Lib

variable {α : Type*} {B : Nat} {ws : List (Nat × List α)} {mem : Nat → Option α}
  {block : Nat → List α}

/-- The store after the writes `ws`, each of them a place and the elements. -/
def fill (B : Nat) (mem : Nat → Option α) (ws : List (Nat × List α)) : Nat → Option α :=
  ws.foldl (fun mem w => overwrite mem (w.1 * B) w.2) mem

/-- One more write on top of the blocks. -/
def overlayOne (block : Nat → List α) (w : Nat × List α) : Nat → List α :=
  Function.update block w.1 (w.2 ++ (block w.1).drop w.2.length)

/-- What stands at each place: later elements replace earlier ones. -/
def overlay (ws : List (Nat × List α)) : Nat → List α := ws.foldl overlayOne fun _ => []

/-- The end of the last write. -/
def extent (B : Nat) (ws : List (Nat × List α)) : Nat :=
  ws.foldl (fun m w => max (w.1 * B + w.2.length) m) 0

/-- The store holds exactly the blocks. -/
structure Represents (B : Nat) (mem : Nat → Option α) (block : Nat → List α) : Prop where
  le : ∀ k, (block k).length ≤ B
  at_eq : ∀ k j, j < B → mem (k * B + j) = (block k)[j]?

@[simp] theorem overlay_concat (ws : List (Nat × List α)) (w : Nat × List α) :
    overlay (ws ++ [w]) = overlayOne (overlay ws) w := by
  simp [overlay]

@[simp] theorem extent_concat (B : Nat) (ws : List (Nat × List α)) (w : Nat × List α) :
    extent B (ws ++ [w]) = max (w.1 * B + w.2.length) (extent B ws) := by
  simp [extent]

theorem overlayOne_self (block : Nat → List α) (w : Nat × List α) :
    overlayOne block w w.1 = w.2 ++ (block w.1).drop w.2.length :=
  Function.update_self ..

theorem overlayOne_of_ne {w : Nat × List α} {k : Nat} (h : k ≠ w.1) :
    overlayOne block w k = block k :=
  Function.update_of_ne h ..

theorem length_overlayOne_self (block : Nat → List α) (w : Nat × List α) :
    (overlayOne block w w.1).length = max w.2.length (block w.1).length := by
  rw [overlayOne_self, List.length_append, List.length_drop]
  omega

/-! ## The store and the overlay -/

/-- A write keeps the store in step with the overlay. -/
theorem Represents.overwrite (h : Represents B mem block) {w : Nat × List α}
    (hw : w.2.length ≤ B) :
    Represents B (overwrite mem (w.1 * B) w.2) (overlayOne block w) := by
  constructor
  · intro k
    by_cases hk : k = w.1
    · rw [hk, length_overlayOne_self]
      exact Nat.max_le.mpr ⟨hw, h.le _⟩
    · rw [overlayOne_of_ne hk]
      exact h.le k
  · intro k j hj
    rcases Nat.lt_trichotomy k w.1 with hlt | heq | hgt
    · have hbefore := block_disjoint hlt (show j + 1 ≤ B from hj)
      rw [overwrite_of_disjoint (by omega), overlayOne_of_ne (by omega), h.at_eq k j hj]
    · rw [heq, overlayOne_self]
      by_cases hnew : j < w.2.length
      · rw [overwrite_of_mem hnew, List.getElem?_append_left hnew]
      · rw [overwrite_of_disjoint (by omega), h.at_eq _ j hj,
          List.getElem?_append_right (by omega), List.getElem?_drop]
        congr 1
        omega
    · have hbehind := block_disjoint hgt hw
      rw [overwrite_of_disjoint (by omega), overlayOne_of_ne (by omega), h.at_eq k j hj]

/-- A fresh store filled by writes holds their overlay. -/
theorem represents_fill (hws : ∀ w ∈ ws, w.2.length ≤ B) :
    Represents B (fill B (fun _ => none) ws) (overlay ws) := by
  induction ws using List.reverseRecOn with
  | nil => exact ⟨fun _ => Nat.zero_le _, fun _ _ _ => rfl⟩
  | append_singleton ws w ih =>
    have hbefore := ih fun v hv => hws v (List.mem_append_left _ hv)
    have hlast := hws w (List.mem_append_right _ (List.mem_singleton_self w))
    have hfill : fill B (fun _ => none) (ws ++ [w]) =
        overwrite (fill B (fun _ => none) ws) (w.1 * B) w.2 := by
      simp [fill]
    rw [hfill, overlay_concat]
    exact hbefore.overwrite hlast

/-- Behind a block that is not full the store was never written. -/
theorem Represents.hole (h : Represents B mem block) {k : Nat} (hk : (block k).length ≠ B) :
    mem (k * B + (block k).length) = none := by
  have hle := h.le k
  rw [h.at_eq k _ (by omega)]
  exact List.getElem?_eq_none (Nat.le_refl _)

theorem Represents.holdsBlocks (h : Represents B mem block) (S : Set Nat) :
    HoldsBlocks B block mem S := by
  intro k _ j hj
  have hle := h.le k
  exact h.at_eq k j (by omega)

/-! ## The overlay and the writes -/

/-- No write is longer than what stands at its place. -/
theorem length_le_overlay {w : Nat × List α} (hw : w ∈ ws) :
    w.2.length ≤ (overlay ws w.1).length := by
  induction ws using List.reverseRecOn with
  | nil => cases hw
  | append_singleton ws v ih =>
    rw [overlay_concat]
    by_cases hsame : w.1 = v.1
    · rw [hsame, length_overlayOne_self]
      rcases List.mem_append.mp hw with hw | hw
      · have hbefore := ih hw
        rw [hsame] at hbefore
        omega
      · rw [List.mem_singleton.mp hw]
        omega
    · rw [overlayOne_of_ne hsame]
      rcases List.mem_append.mp hw with hw | hw
      · exact ih hw
      · exact absurd (congrArg Prod.fst (List.mem_singleton.mp hw)) hsame

/-- What stands at a place is as long as one of the writes to it. -/
theorem exists_of_length_overlay {k : Nat} (h : overlay ws k ≠ []) :
    ∃ w ∈ ws, w.1 = k ∧ w.2.length = (overlay ws k).length := by
  induction ws using List.reverseRecOn with
  | nil => exact absurd rfl h
  | append_singleton ws v ih =>
    rw [overlay_concat] at h ⊢
    have hlast : v ∈ ws ++ [v] := List.mem_append_right _ (List.mem_singleton_self v)
    by_cases hsame : k = v.1
    · subst hsame
      rw [length_overlayOne_self]
      by_cases hlong : (overlay ws v.1).length ≤ v.2.length
      · exact ⟨v, hlast, rfl, by omega⟩
      · have hne : overlay ws v.1 ≠ [] := by
          intro hnil
          rw [hnil] at hlong
          exact hlong (Nat.zero_le _)
        obtain ⟨w, hw, hplace, hlength⟩ := ih hne
        exact ⟨w, List.mem_append_left _ hw, hplace, by omega⟩
    · rw [overlayOne_of_ne hsame] at h ⊢
      obtain ⟨w, hw, hrest⟩ := ih h
      exact ⟨w, List.mem_append_left _ hw, hrest⟩

/-- Every element of the overlay was written there. -/
theorem exists_of_mem_overlay {k j : Nat} {c : α} (h : (overlay ws k)[j]? = some c) :
    ∃ w ∈ ws, w.1 = k ∧ w.2[j]? = some c := by
  induction ws using List.reverseRecOn with
  | nil => simp [overlay] at h
  | append_singleton ws v ih =>
    have holder : (overlay ws k)[j]? = some c →
        ∃ w ∈ ws ++ [v], w.1 = k ∧ w.2[j]? = some c := by
      intro hc
      obtain ⟨w, hw, hrest⟩ := ih hc
      exact ⟨w, List.mem_append_left _ hw, hrest⟩
    rw [overlay_concat] at h
    by_cases hsame : k = v.1
    · subst hsame
      rw [overlayOne_self] at h
      by_cases hnew : j < v.2.length
      · rw [List.getElem?_append_left hnew] at h
        exact ⟨v, List.mem_append_right _ (List.mem_singleton_self v), rfl, h⟩
      · rw [List.getElem?_append_right (by omega), List.getElem?_drop] at h
        apply holder
        rw [← h]
        congr 1
        omega
    · rw [overlayOne_of_ne hsame] at h
      exact holder h

/-- A place is full exactly when a full block was written to it. -/
theorem length_overlay_eq_iff (hpos : 0 < B) (hws : ∀ w ∈ ws, w.2.length ≤ B) {k : Nat} :
    (overlay ws k).length = B ↔ ∃ w ∈ ws, w.1 = k ∧ w.2.length = B := by
  constructor
  · intro hfull
    have hne : overlay ws k ≠ [] := by
      intro hnil
      rw [hnil, List.length_nil] at hfull
      omega
    obtain ⟨w, hw, hplace, hlength⟩ := exists_of_length_overlay hne
    exact ⟨w, hw, hplace, hlength.trans hfull⟩
  · rintro ⟨w, hw, rfl, hfull⟩
    have hle := (represents_fill hws).le w.1
    have hge := length_le_overlay hw
    omega

/-! ## Reading up to the end of the last write -/

theorem le_extent {w : Nat × List α} (hw : w ∈ ws) : w.1 * B + w.2.length ≤ extent B ws := by
  induction ws using List.reverseRecOn with
  | nil => cases hw
  | append_singleton ws v ih =>
    rw [extent_concat]
    rcases List.mem_append.mp hw with hw | hw
    · exact Nat.le_trans (ih hw) (Nat.le_max_right _ _)
    · rw [List.mem_singleton.mp hw]
      exact Nat.le_max_left _ _

/-- The extent is the end of one of the writes. -/
theorem extent_eq (h : ws ≠ []) : ∃ w ∈ ws, extent B ws = w.1 * B + w.2.length := by
  induction ws using List.reverseRecOn with
  | nil => exact absurd rfl h
  | append_singleton ws v ih =>
    have hlast : v ∈ ws ++ [v] := List.mem_append_right _ (List.mem_singleton_self v)
    rw [extent_concat]
    by_cases hnil : ws = []
    · exact ⟨v, hlast, by simp [hnil, extent]⟩
    · obtain ⟨w, hw, heq⟩ := ih hnil
      rcases Nat.le_total (extent B ws) (v.1 * B + v.2.length) with hle | hle
      · exact ⟨v, hlast, Nat.max_eq_left hle⟩
      · exact ⟨w, List.mem_append_left _ hw, (Nat.max_eq_right hle).trans heq⟩

/-- There is a last place. -/
theorem exists_last_place (h : ws ≠ []) : ∃ w ∈ ws, ∀ v ∈ ws, v.1 ≤ w.1 := by
  obtain ⟨w, hw⟩ := List.exists_mem_of_ne_nil ws h
  obtain ⟨last, hlast, hall⟩ :=
    Set.exists_max_image {v | v ∈ ws} Prod.fst (List.finite_toSet ws) ⟨w, hw⟩
  exact ⟨last, hlast, fun v hv => hall v hv⟩

/-- Some number is above all places. -/
theorem exists_bound (ws : List (Nat × List α)) : ∃ n, ∀ w ∈ ws, w.1 < n := by
  by_cases hnil : ws = []
  · exact ⟨0, by simp [hnil]⟩
  · obtain ⟨last, _, hall⟩ := exists_last_place hnil
    exact ⟨last.1 + 1, fun w hw => Nat.lt_succ_of_le (hall w hw)⟩

/-- If nothing below the extent is unwritten, every place below a write is
full. -/
theorem full_of_written (hws : ∀ w ∈ ws, w.2.length ≤ B)
    (h : ∀ i < extent B ws, fill B (fun _ => none) ws i ≠ none) {w : Nat × List α} (hw : w ∈ ws)
    {i : Nat} (hi : i < w.1) : (overlay ws i).length = B := by
  have hrep := represents_fill hws
  by_contra hshort
  have hlt : (overlay ws i).length + 1 ≤ B := by
    have hle := hrep.le i
    omega
  have hbefore := block_disjoint hi hlt
  have hend := le_extent (B := B) hw
  exact h _ (by omega) (hrep.hole hshort)

/-- If every place below a write is full, the store reads back as the blocks in
order. -/
theorem read_extent (hws : ∀ w ∈ ws, w.2.length ≤ B) {n : Nat} (hn : ∀ w ∈ ws, w.1 < n)
    (h : ∀ w ∈ ws, ∀ i < w.1, (overlay ws i).length = B) :
    readFirst (fill B (fun _ => none) ws) (extent B ws) =
      (joinBlocks (overlay ws) n).map some := by
  have hrep := represents_fill hws
  by_cases hnil : ws = []
  · subst hnil
    have hempty : joinBlocks (overlay ([] : List (Nat × List α))) n = [] :=
      joinBlocks_of_nil (Nat.zero_le n) fun _ _ _ => rfl
    rw [hempty]
    rfl
  · obtain ⟨last, hlast, hall⟩ := exists_last_place hnil
    have hblocked : Blocked B (overlay ws) (last.1 + 1) :=
      ⟨fun k _ => hrep.le k, fun k hk => h last hlast k (by omega)⟩
    have hend : extent B ws = blockEnd B (overlay ws) last.1 := by
      obtain ⟨w, hw, heq⟩ := extent_eq (B := B) hnil
      have hlong : w.1 * B + w.2.length ≤ blockEnd B (overlay ws) last.1 :=
        Nat.le_trans (Nat.add_le_add_left (length_le_overlay hw) _)
          (blockEnd_le hblocked (hall w hw) (Nat.lt_succ_self _))
      have hshort : blockEnd B (overlay ws) last.1 ≤ extent B ws := by
        by_cases hempty : overlay ws last.1 = []
        · have hle := le_extent (B := B) hlast
          rw [blockEnd, hempty, List.length_nil]
          omega
        · obtain ⟨v, hv, hplace, hlength⟩ := exists_of_length_overlay hempty
          rw [blockEnd, ← hlength, ← hplace]
          exact le_extent hv
      omega
    have hbehind : ∀ k, last.1 + 1 ≤ k → k < n → overlay ws k = [] := by
      intro k hk _
      by_contra hne
      obtain ⟨w, hw, hplace, _⟩ := exists_of_length_overlay hne
      have hle := hall w hw
      omega
    rw [hend, joinBlocks_of_nil (hn last hlast) hbehind]
    exact read_of_holdsBlocks hblocked (hrep.holdsBlocks _)
      (extent_Iio_succ hblocked (Nat.lt_succ_self _))

/-! ## Writes of no elements -/

theorem overlayOne_nil (block : Nat → List α) {w : Nat × List α} (hw : w.2 = []) :
    overlayOne block w = block := by
  simp [overlayOne, hw]

theorem overlay_filter (ws : List (Nat × List α)) :
    overlay (ws.filter fun w => !w.2.isEmpty) = overlay ws := by
  induction ws using List.reverseRecOn with
  | nil => rfl
  | append_singleton ws w ih =>
    rw [List.filter_append, overlay_concat]
    by_cases hw : w.2 = []
    · have hgone : [w].filter (fun w => !w.2.isEmpty) = [] := by simp [hw]
      rw [hgone, List.append_nil, ih, overlayOne_nil _ hw]
    · have hkept : [w].filter (fun w => !w.2.isEmpty) = [w] := by simp [hw]
      rw [hkept, overlay_concat, ih]

theorem fill_filter (B : Nat) (mem : Nat → Option α) (ws : List (Nat × List α)) :
    fill B mem (ws.filter fun w => !w.2.isEmpty) = fill B mem ws := by
  induction ws generalizing mem with
  | nil => rfl
  | cons w ws ih =>
    by_cases hw : w.2 = []
    · have hsame : overwrite mem (w.1 * B) w.2 = mem := by
        funext i
        rw [hw]
        exact overwrite_of_disjoint (by simp; omega)
      rw [List.filter_cons_of_neg (by simp [hw]), ih]
      show fill B mem ws = fill B (overwrite mem (w.1 * B) w.2) ws
      rw [hsame]
    · rw [List.filter_cons_of_pos (by simp [hw])]
      exact ih _

theorem extent_filter_le (B : Nat) (p : Nat × List α → Bool) (ws : List (Nat × List α)) :
    extent B (ws.filter p) ≤ extent B ws := by
  by_cases hnil : ws.filter p = []
  · rw [hnil]
    exact Nat.zero_le _
  · obtain ⟨w, hw, heq⟩ := extent_eq (B := B) hnil
    rw [heq]
    exact le_extent (List.mem_filter.mp hw).1

/-! ## Reading up to the total length -/

theorem joinBlocks_length_mono (block : Nat → List α) {a b : Nat} (hab : a ≤ b) :
    (joinBlocks block a).length ≤ (joinBlocks block b).length := by
  induction hab with
  | refl => exact Nat.le_refl _
  | step _ ih =>
    rw [joinBlocks_succ, List.length_append]
    omega

/-- The first block that is not full leaves a hole in front of whatever
follows. -/
theorem Represents.exists_hole (h : Represents B mem block) {i j : Nat} (hij : i < j)
    (hj : block j ≠ []) (hshort : (block i).length ≠ B) :
    ∃ a, a < (joinBlocks block (j + 1)).length ∧ mem a = none := by
  induction i using Nat.strongRecOn with
  | ind i ih =>
    by_cases hfirst : ∃ k < i, (block k).length ≠ B
    · obtain ⟨k, hk, hshort'⟩ := hfirst
      exact ih k hk (by omega) hshort'
    · have hfull : ∀ k < i, (block k).length = B := by
        intro k hk
        by_contra hne
        exact hfirst ⟨k, hk, hne⟩
      have hfront : (joinBlocks block (i + 1)).length = i * B + (block i).length := by
        rw [joinBlocks_succ, List.length_append, joinBlocks_length hfull]
      have hmono := joinBlocks_length_mono block (show i + 1 ≤ j from hij)
      have hpos : 0 < (block j).length := List.length_pos_of_ne_nil hj
      have htotal : (joinBlocks block (j + 1)).length =
          (joinBlocks block j).length + (block j).length := by
        rw [joinBlocks_succ, List.length_append]
      exact ⟨i * B + (block i).length, by omega, h.hole hshort⟩

/-- The store reads back as the blocks in order, up to their total length,
exactly when only empty blocks follow one that is not full. -/
theorem read_join_iff (h : Represents B mem block) (n : Nat) :
    readFirst mem (joinBlocks block n).length = (joinBlocks block n).map some ↔
      ∀ j < n, block j ≠ [] → ∀ i < j, (block i).length = B := by
  constructor
  · intro hread j hj hne i hi
    by_contra hshort
    obtain ⟨a, ha, hnone⟩ := h.exists_hole hi hne hshort
    have hmono := joinBlocks_length_mono block (show j + 1 ≤ n from hj)
    have hmem : none ∈ readFirst mem (joinBlocks block n).length :=
      List.mem_map.mpr ⟨a, List.mem_range.mpr (by omega), hnone⟩
    rw [hread] at hmem
    simp at hmem
  · intro hfull
    induction n with
    | zero => simp [joinBlocks, readFirst]
    | succ n ih =>
      by_cases hne : block n = []
      · have hfront := ih fun j hj => hfull j (by omega)
        rw [joinBlocks_succ, hne, List.append_nil]
        exact hfront
      · have hall := hfull n (Nat.lt_succ_self n) hne
        have hfront := readFirst_full hall (h.holdsBlocks (Set.Iio n))
        have hlast : ∀ j < (block n).length, mem (n * B + j) = (block n)[j]? :=
          (h.holdsBlocks Set.univ) n trivial
        rw [joinBlocks_succ, List.length_append, joinBlocks_length hall, readFirst_add, hfront,
          map_range_of_stored hlast, List.map_append]

/-- Writes to the places 0, 1, 2, ... use as many places as there are writes. -/
theorem lt_of_successive (h : ws.map Prod.fst = List.range ws.length) :
    ∀ w ∈ ws, w.1 < ws.length := by
  intro w hw
  have hmem : w.1 ∈ ws.map Prod.fst := List.mem_map_of_mem hw
  rw [h] at hmem
  exact List.mem_range.mp hmem

/-- Writes to the places 0, 1, 2, ... do not overlap. -/
theorem overlay_of_successive (h : ws.map Prod.fst = List.range ws.length) :
    (∀ w ∈ ws, overlay ws w.1 = w.2) ∧ (∀ k, ws.length ≤ k → overlay ws k = []) ∧
      joinBlocks (overlay ws) ws.length = ws.flatMap Prod.snd := by
  induction ws using List.reverseRecOn with
  | nil => exact ⟨nofun, fun _ _ => rfl, rfl⟩
  | append_singleton ws v ih =>
    have hsplit : ws.map Prod.fst = List.range ws.length ∧ v.1 = ws.length := by
      rw [List.map_append, List.length_append, List.length_singleton, List.range_succ] at h
      have hparts := List.append_inj h (by simp)
      exact ⟨hparts.1, by simpa using hparts.2⟩
    obtain ⟨hplaces, hv⟩ := hsplit
    obtain ⟨hown, hfree, hjoin⟩ := ih hplaces
    have hbelow := lt_of_successive hplaces
    have hself : overlayOne (overlay ws) v v.1 = v.2 := by
      rw [overlayOne_self, hfree v.1 (by omega), List.drop_nil, List.append_nil]
    rw [overlay_concat]
    refine ⟨fun w hw => ?_, fun k hk => ?_, ?_⟩
    · rcases List.mem_append.mp hw with hw | hw
      · have hlt := hbelow w hw
        rw [overlayOne_of_ne (by omega), hown w hw]
      · rw [List.mem_singleton.mp hw, hself]
    · rw [List.length_append, List.length_singleton] at hk
      rw [overlayOne_of_ne (by omega), hfree k (by omega)]
    · have hsame : joinBlocks (overlayOne (overlay ws) v) ws.length =
          joinBlocks (overlay ws) ws.length :=
        joinBlocks_congr fun k hk => overlayOne_of_ne (by omega)
      rw [List.length_append, List.length_singleton, joinBlocks_succ, hsame, hjoin, ← hv, hself,
        List.flatMap_append]
      simp

end NetLabs.Lib
