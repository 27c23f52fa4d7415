import NetLabs.Lib.SlidingWindow

/-!
# `update_window`

The in-place window update of `util.c`, loop by loop.  The `int` array holds
only zeros and ones, so a slot is a `Bool`.

`updateWindow_eq` is the specification: with `W` the window after the slot is
set, the result is the number of leading ones of `W` and the slide of `W` by
that number.  The callers cite it and never unfold the loops.
`updateWindow_slides` spells the slide out slot by slot.

`updateWindowSlots` lists the indices that the code uses.  `updateWindow_frame` and
`updateWindow_local` tie the list to the code.
-/

namespace NetLabs.Rtp

open NetLabs.Lib

/-- `while (shift < wsize && window[shift]) ++shift;`  The fuel bounds the
number of passes; `wsize` of it is enough. -/
def scanOnes (window : List Bool) (wsize : Nat) : (fuel shift : Nat) → Nat
  | 0, shift => shift
  | fuel + 1, shift =>
    if shift < wsize && window.getD shift false then
      scanOnes window wsize fuel (shift + 1)
    else
      shift

/-- `while (rind < wsize) window[lind++] = window[rind++];` -/
def moveDown (wsize : Nat) : (fuel : Nat) → List Bool → (lind rind : Nat) → List Bool × Nat
  | 0, window, lind, _ => (window, lind)
  | fuel + 1, window, lind, rind =>
    if rind < wsize then
      moveDown wsize fuel (window.set lind (window.getD rind false)) (lind + 1) (rind + 1)
    else
      (window, lind)

/-- `memset(window + lind, 0, (wsize - lind) * sizeof(int));` -/
def clearFrom (window : List Bool) (wsize lind : Nat) : List Bool :=
  window.take lind ++ List.replicate (wsize - lind) false ++ window.drop wsize

/-- Set slot `ind`, slide the window over its leading ones, and return how far
it moved. -/
def updateWindow (window : List Bool) (wsize ind : Nat) : Nat × List Bool :=
  let window := window.set ind true
  let shift := scanOnes window wsize wsize 0
  let (window, lind) := moveDown wsize wsize window 0 shift
  (shift, clearFrom window wsize lind)

/-- The slots that the scan reads. -/
def scanSlots (window : List Bool) (wsize : Nat) : (fuel shift : Nat) → List Nat
  | 0, _ => []
  | fuel + 1, shift =>
    if shift < wsize then
      shift :: if window.getD shift false then scanSlots window wsize fuel (shift + 1) else []
    else
      []

/-- The slots that the move reads and writes. -/
def moveSlots (wsize : Nat) : (fuel lind rind : Nat) → List Nat
  | 0, _, _ => []
  | fuel + 1, lind, rind =>
    if rind < wsize then
      rind :: lind :: moveSlots wsize fuel (lind + 1) (rind + 1)
    else
      []

/-- Every index that `update_window` uses on `window`, loop by loop. -/
def updateWindowSlots (window : List Bool) (wsize ind : Nat) : List Nat :=
  let window := window.set ind true
  let shift := scanOnes window wsize wsize 0
  let lind := (moveDown wsize wsize window 0 shift).2
  ind :: (scanSlots window wsize wsize 0 ++ moveSlots wsize wsize 0 shift ++
    List.range' lind (wsize - lind))

/-! ## The scan -/

private theorem scanOnes_aux (window : List Bool) :
    ∀ (fuel shift : Nat), window.length ≤ shift + fuel →
      scanOnes window window.length fuel shift = shift + leadingOnes (window.drop shift) := by
  intro fuel
  induction fuel with
  | zero =>
    intro shift hfuel
    rw [scanOnes, List.drop_eq_nil_of_le (by omega)]
    rfl
  | succ fuel ih =>
    intro shift hfuel
    rw [scanOnes]
    rcases Nat.lt_or_ge shift window.length with hlt | hge
    · rw [List.drop_eq_getElem_cons hlt, List.getD_eq_getElem?_getD,
        List.getElem?_eq_getElem hlt, Option.getD_some]
      cases hslot : window[shift] with
      | false => simp [leadingOnes]
      | true =>
        rw [if_pos (by simp [hlt]), ih (shift + 1) (by omega)]
        simp only [leadingOnes, List.takeWhile_cons, id, if_true, List.length_cons]
        omega
    · rw [List.drop_eq_nil_of_le hge, if_neg (by simp; omega)]
      rfl

/-- The scan stops behind the leading ones. -/
theorem scanOnes_eq (window : List Bool) :
    scanOnes window window.length window.length 0 = leadingOnes window := by
  simpa using scanOnes_aux window window.length 0 (by omega)

/-! ## The move -/

/-- The move copies the slots from `rind` on to the slots from `lind` on.  The
induction is on the fuel; the slots below `lind` are already in place and the
slots from `rind` on are still untouched, because `lind ≤ rind`. -/
private theorem moveDown_aux (wsize : Nat) :
    ∀ (fuel : Nat) (window : List Bool) (lind rind : Nat),
      window.length = wsize → lind ≤ rind → wsize ≤ rind + fuel →
      (moveDown wsize fuel window lind rind).1.length = wsize ∧
      (moveDown wsize fuel window lind rind).2 = lind + (wsize - rind) ∧
      (moveDown wsize fuel window lind rind).1.take (lind + (wsize - rind)) =
        window.take lind ++ window.drop rind := by
  intro fuel
  induction fuel with
  | zero =>
    intro window lind rind hlen hle hfuel
    rw [moveDown, List.drop_eq_nil_of_le (by omega)]
    simp [hlen, show wsize - rind = 0 by omega]
  | succ fuel ih =>
    intro window lind rind hlen hle hfuel
    rw [moveDown]
    split
    · rename_i hlt
      have hrind : rind < window.length := by omega
      have hlind : lind < window.length := by omega
      have hlen' : (window.set lind (window.getD rind false)).length = wsize := by
        rw [List.length_set, hlen]
      obtain ⟨h1, h2, h3⟩ := ih _ (lind + 1) (rind + 1) hlen' (by omega) (by omega)
      have hcount : lind + 1 + (wsize - (rind + 1)) = lind + (wsize - rind) := by omega
      rw [hcount] at h2 h3
      refine ⟨h1, h2, ?_⟩
      have htake : (window.set lind (window.getD rind false)).take (lind + 1) =
          window.take lind ++ [window[rind]] := by
        rw [List.take_succ_eq_append_getElem (by simpa using hlind),
          List.take_set_of_le (Nat.le_refl lind)]
        simp [hrind]
      have hdrop : (window.set lind (window.getD rind false)).drop (rind + 1) =
          window.drop (rind + 1) := List.drop_set_of_lt (by omega)
      rw [h3, htake, hdrop, List.append_assoc, List.singleton_append,
        ← List.drop_eq_getElem_cons hrind]
    · rename_i hge
      rw [List.drop_eq_nil_of_le (by omega)]
      simp [hlen, show wsize - rind = 0 by omega]

/-- `update_window` sets the slot and slides over the leading ones. -/
theorem updateWindow_eq {window : List Bool} {wsize : Nat} (hlen : window.length = wsize)
    (ind : Nat) :
    updateWindow window wsize ind =
      (leadingOnes (window.set ind true),
        slide (window.set ind true) (leadingOnes (window.set ind true))) := by
  have hlen' : (window.set ind true).length = wsize := by rw [List.length_set, hlen]
  generalize hW : window.set ind true = W at hlen'
  have hscan : scanOnes W wsize wsize 0 = leadingOnes W := by
    rw [← hlen']
    exact scanOnes_eq W
  have hones : leadingOnes W ≤ wsize := hlen' ▸ leadingOnes_le_length W
  obtain ⟨h1, h2, h3⟩ := moveDown_aux wsize wsize W 0 (leadingOnes W) hlen' (by omega) (by omega)
  simp only [Nat.zero_add, List.take_zero, List.nil_append] at h2 h3
  have htail : (moveDown wsize wsize W 0 (leadingOnes W)).1.drop wsize = [] :=
    List.drop_eq_nil_of_le (by omega)
  have hfill : wsize - (wsize - leadingOnes W) = min (leadingOnes W) W.length := by omega
  simp only [updateWindow, hW, hscan, clearFrom, h2, h3, slide, htail, hfill, List.append_nil]

theorem updateWindow_length {window : List Bool} {wsize : Nat} (hlen : window.length = wsize)
    (ind : Nat) : (updateWindow window wsize ind).2.length = wsize := by
  rw [updateWindow_eq hlen, slide_length, List.length_set, hlen]

/-- `update_window` marks one number and slides, so the set it stands for
gains exactly that number, and the window is settled again. -/
theorem marked_updateWindow (base : Nat) {window : List Bool} {wsize ind : Nat}
    (hlen : window.length = wsize) (hind : ind < wsize) :
    marked (base + (updateWindow window wsize ind).1) (updateWindow window wsize ind).2 =
        insert (base + ind) (marked base window) ∧
      Settled (updateWindow window wsize ind).2 := by
  rw [updateWindow_eq hlen]
  exact ⟨by rw [marked_slide (Nat.le_refl _), marked_set base (by omega)], settled_slide _⟩

/-! ## The slots it touches -/

private theorem lt_of_mem_scanSlots {window : List Bool} {wsize fuel shift i : Nat}
    (hi : i ∈ scanSlots window wsize fuel shift) : i < wsize := by
  induction fuel generalizing shift with
  | zero => cases hi
  | succ fuel ih =>
    rw [scanSlots] at hi
    by_cases hlt : shift < wsize
    · rw [if_pos hlt] at hi
      rcases List.mem_cons.mp hi with rfl | hi
      · exact hlt
      · by_cases hone : window.getD shift false = true
        · rw [if_pos hone] at hi
          exact ih hi
        · rw [if_neg hone] at hi
          cases hi
    · rw [if_neg hlt] at hi
      cases hi

private theorem lt_of_mem_moveSlots {wsize fuel lind rind i : Nat} (hle : lind ≤ rind)
    (hi : i ∈ moveSlots wsize fuel lind rind) : i < wsize := by
  induction fuel generalizing lind rind with
  | zero => cases hi
  | succ fuel ih =>
    rw [moveSlots] at hi
    by_cases hlt : rind < wsize
    · rw [if_pos hlt] at hi
      rcases List.mem_cons.mp hi with rfl | hi
      · exact hlt
      · rcases List.mem_cons.mp hi with rfl | hi
        · omega
        · exact ih (Nat.succ_le_succ hle) hi
    · rw [if_neg hlt] at hi
      cases hi

/-- `update_window` stays inside the array when the slot it is given does. -/
theorem lt_of_mem_updateWindowSlots {window : List Bool} {wsize ind i : Nat} (hind : ind < wsize)
    (hi : i ∈ updateWindowSlots window wsize ind) : i < wsize := by
  simp only [updateWindowSlots, List.mem_cons, List.mem_append, List.mem_range'_1] at hi
  rcases hi with rfl | (hscan | hmove) | hclear
  · exact hind
  · exact lt_of_mem_scanSlots hscan
  · exact lt_of_mem_moveSlots (Nat.zero_le _) hmove
  · omega

/-! ## The slots are all that the update uses -/

/-- Two windows agree on a set of slots. -/
def AgreeOn (S : Set Nat) (w w' : List Bool) : Prop := ∀ i ∈ S, w[i]? = w'[i]?

variable {S : Set Nat} {w w' : List Bool} {wsize ind : Nat}

theorem AgreeOn.getD (h : AgreeOn S w w') {i : Nat} (hi : i ∈ S) :
    w.getD i false = w'.getD i false := by
  rw [List.getD_eq_getElem?_getD, List.getD_eq_getElem?_getD, h i hi]

theorem AgreeOn.set (h : AgreeOn S w w') {i : Nat} (hi : i ∈ S) (b : Bool) :
    AgreeOn S (w.set i b) (w'.set i b) := by
  intro j hj
  have hlength : i < w.length ↔ i < w'.length := by
    rw [← not_iff_not, Nat.not_lt, Nat.not_lt, ← List.getElem?_eq_none_iff, h i hi,
      List.getElem?_eq_none_iff]
  rw [List.getElem?_set, List.getElem?_set, h j hj]
  simp only [hlength]

/-- The scan reads the slots of `scanSlots`, and no others. -/
private theorem AgreeOn.scan (h : AgreeOn S w w') :
    ∀ (fuel shift : Nat), (∀ i ∈ scanSlots w wsize fuel shift, i ∈ S) →
      scanOnes w' wsize fuel shift = scanOnes w wsize fuel shift ∧
        scanSlots w' wsize fuel shift = scanSlots w wsize fuel shift := by
  intro fuel
  induction fuel with
  | zero => exact fun _ _ => ⟨rfl, rfl⟩
  | succ fuel ih =>
    intro shift hslots
    simp only [scanSlots, scanOnes] at hslots ⊢
    by_cases hlt : shift < wsize
    · rw [if_pos hlt] at hslots
      have hsame := h.getD (hslots shift List.mem_cons_self)
      simp only [hlt, if_true, decide_true, Bool.true_and, ← hsame]
      by_cases hone : w.getD shift false = true
      · rw [if_pos hone] at hslots
        obtain ⟨hshift, hread⟩ := ih (shift + 1) fun i hi => hslots i (List.mem_cons_of_mem _ hi)
        simp only [hone, if_true, hshift, hread, and_self]
      · simp only [hone, Bool.false_eq_true, if_false, and_self]
    · simp [hlt]

/-- The move reads and writes the slots of `moveSlots`, and no others. -/
private theorem AgreeOn.move (h : AgreeOn S w w') :
    ∀ (fuel lind rind : Nat), (∀ i ∈ moveSlots wsize fuel lind rind, i ∈ S) →
      AgreeOn S (moveDown wsize fuel w lind rind).1 (moveDown wsize fuel w' lind rind).1 ∧
        (moveDown wsize fuel w' lind rind).2 = (moveDown wsize fuel w lind rind).2 := by
  intro fuel
  induction fuel generalizing w w' with
  | zero => exact fun _ _ _ => ⟨h, rfl⟩
  | succ fuel ih =>
    intro lind rind hslots
    simp only [moveSlots, moveDown] at hslots ⊢
    by_cases hlt : rind < wsize
    · simp only [hlt, if_true] at hslots ⊢
      have hread := h.getD (hslots rind List.mem_cons_self)
      have hwrite := h.set (hslots lind (List.mem_cons_of_mem _ List.mem_cons_self))
        (w.getD rind false)
      rw [← hread]
      exact ih hwrite (lind + 1) (rind + 1) fun i hi =>
        hslots i (List.mem_cons_of_mem _ (List.mem_cons_of_mem _ hi))
    · simp only [hlt, if_false]
      exact ⟨h, trivial⟩

private theorem moveDown_frame {i : Nat} :
    ∀ (fuel lind rind : Nat), i ∉ moveSlots wsize fuel lind rind →
      (moveDown wsize fuel w lind rind).1[i]? = w[i]? := by
  intro fuel
  induction fuel generalizing w with
  | zero => exact fun _ _ _ => rfl
  | succ fuel ih =>
    intro lind rind hi
    simp only [moveSlots, moveDown] at hi ⊢
    by_cases hlt : rind < wsize
    · simp only [hlt, if_true, List.mem_cons, not_or] at hi ⊢
      rw [ih (lind + 1) (rind + 1) hi.2.2, List.getElem?_set_ne (Ne.symm hi.2.1)]
    · simp only [hlt, if_false]

private theorem getElem?_clearFrom {lind : Nat} (hw : w.length = wsize) (hlind : lind ≤ wsize)
    (i : Nat) :
    (clearFrom w wsize lind)[i]? = if lind ≤ i ∧ i < wsize then some false else w[i]? := by
  rw [clearFrom, List.drop_eq_nil_of_le (by omega), List.append_nil, List.getElem?_append,
    List.length_take, List.getElem?_take, List.getElem?_replicate]
  by_cases hbefore : i < lind
  · rw [if_pos (by omega), if_pos hbefore, if_neg (by omega)]
  · by_cases hinside : i < wsize
    · rw [if_neg (by omega), if_pos (by omega), if_pos (by omega)]
    · rw [if_neg (by omega), if_neg (by omega), if_neg (by omega),
        List.getElem?_eq_none (by omega)]

/-- What `moveDown` leaves for `memset`. -/
private theorem moveDown_bounds (hw : w.length = wsize) :
    (moveDown wsize wsize w 0 (scanOnes w wsize wsize 0)).1.length = wsize ∧
      (moveDown wsize wsize w 0 (scanOnes w wsize wsize 0)).2 ≤ wsize := by
  subst hw
  obtain ⟨hlength, hlind, _⟩ := moveDown_aux w.length w.length w 0
    (scanOnes w w.length w.length 0) rfl (Nat.zero_le _) (by omega)
  exact ⟨hlength, by omega⟩

/-- `update_window` changes none but its slots. -/
theorem updateWindow_frame (hw : w.length = wsize) {i : Nat}
    (hi : i ∉ updateWindowSlots w wsize ind) : (updateWindow w wsize ind).2[i]? = w[i]? := by
  have hset : (w.set ind true).length = wsize := by rw [List.length_set, hw]
  obtain ⟨hlength, hlind⟩ := moveDown_bounds hset
  simp only [updateWindowSlots, List.mem_cons, List.mem_append, List.mem_range'_1, not_or] at hi
  obtain ⟨hind, ⟨_, hmove⟩, hclear⟩ := hi
  simp only [updateWindow]
  rw [getElem?_clearFrom hlength hlind, if_neg (by omega), moveDown_frame _ _ _ hmove,
    List.getElem?_set_ne (Ne.symm hind)]

/-- `update_window` looks at none but its slots: on windows that agree there it
returns the same and leaves the same there. -/
theorem updateWindow_local (hw : w.length = wsize) (hw' : w'.length = wsize)
    (h : AgreeOn {i | i ∈ updateWindowSlots w wsize ind} w w') :
    (updateWindow w' wsize ind).1 = (updateWindow w wsize ind).1 ∧
      AgreeOn {i | i ∈ updateWindowSlots w wsize ind}
        (updateWindow w wsize ind).2 (updateWindow w' wsize ind).2 := by
  have hset : (w.set ind true).length = wsize := by rw [List.length_set, hw]
  have hset' : (w'.set ind true).length = wsize := by rw [List.length_set, hw']
  have hafter := h.set (i := ind) List.mem_cons_self true
  have hscanned : ∀ i ∈ scanSlots (w.set ind true) wsize wsize 0,
      i ∈ updateWindowSlots w wsize ind := fun i hi =>
    List.mem_cons_of_mem _ (List.mem_append_left _ (List.mem_append_left _ hi))
  have hmoved : ∀ i ∈ moveSlots wsize wsize 0 (scanOnes (w.set ind true) wsize wsize 0),
      i ∈ updateWindowSlots w wsize ind := fun i hi =>
    List.mem_cons_of_mem _ (List.mem_append_left _ (List.mem_append_right _ hi))
  have hscan := hafter.scan wsize 0 hscanned
  have hmove := hafter.move wsize 0 (scanOnes (w.set ind true) wsize wsize 0) hmoved
  obtain ⟨hlength, hlind⟩ := moveDown_bounds hset
  obtain ⟨hlength', hlind'⟩ := moveDown_bounds hset'
  refine ⟨hscan.1, fun i hi => ?_⟩
  simp only [updateWindow]
  rw [getElem?_clearFrom hlength hlind, getElem?_clearFrom hlength' hlind', hscan.1, hmove.2]
  split
  · rfl
  · exact hmove.1 i hi

/-! ## The whole update -/

/-- What the slide of the window `W` by `k` slots is: `k` is the length of its
longest all-ones prefix, every slot moves down by `k`, zeros follow, and the
first slot is zero. -/
structure Slides (W : List Bool) (k : Nat) (slid : List Bool) : Prop where
  ones : ∀ i < k, W[i]? = some true
  longest : k ≤ W.length ∧ W[k]? ≠ some true
  length : slid.length = W.length
  slot : ∀ i < W.length, slid[i]? = if i + k < W.length then W[i + k]? else some false
  count : slid.count true + k = W.count true
  first : slid[0]? = some false

/-- A non-empty window slides over its leading ones as `Slides` says. -/
theorem slides_leadingOnes {W : List Bool} (hpos : 0 < W.length) :
    Slides W (leadingOnes W) (slide W (leadingOnes W)) where
  ones := fun _ hi => getElem?_of_lt_leadingOnes hi
  longest := ⟨leadingOnes_le_length W, getElem?_leadingOnes_ne W⟩
  length := slide_length W _
  slot := fun _ hi => getElem?_slide hi
  count := count_slide (Nat.le_refl _)
  first := by
    have hsettled := settled_slide W
    have hlen := slide_length W (leadingOnes W)
    unfold Settled at hsettled
    rw [List.getElem?_eq_getElem (by omega)] at hsettled ⊢
    simpa using hsettled

/-- `update_window` is a correct slide of the window with the slot set, and
touches no slot outside the array. -/
theorem updateWindow_slides {window : List Bool} {ind : Nat} (hind : ind < window.length) :
    Slides (window.set ind true) (updateWindow window window.length ind).1
        (updateWindow window window.length ind).2 ∧
      ∀ i ∈ updateWindowSlots window window.length ind, i < window.length := by
  refine ⟨?_, fun i hi => lt_of_mem_updateWindowSlots hind hi⟩
  rw [updateWindow_eq rfl]
  apply slides_leadingOnes
  rw [List.length_set]
  omega

/-- Setting slot `0` of a window whose slot `1` is set moves it by two. -/
theorem updateWindow_slides_two :
    Slides ([false, true, false, true].set 0 true)
        (updateWindow [false, true, false, true] 4 0).1
        (updateWindow [false, true, false, true] 4 0).2 ∧
      ∀ i ∈ updateWindowSlots [false, true, false, true] 4 0, i < 4 := by
  have hind : 0 < [false, true, false, true].length := by decide
  exact updateWindow_slides hind

end NetLabs.Rtp
