import Mathlib.Tactic.TypeStar

/-!
# Histories of a store

A history is what has been written to a store and what has been read from it,
the last operation first.  It is `Legal` when every read of a key that has been
written returns what was written there last.
-/

namespace NetLabs.Lib

inductive StoreOp (κ β : Type*)
  | put (key : κ) (value : β)
  | got (key : κ) (value : β)

variable {κ β : Type*} [DecidableEq κ]

/-- What was written last under the key. -/
def lastPut (key : κ) : List (StoreOp κ β) → Option β
  | [] => none
  | .put k value :: h => if k = key then some value else lastPut key h
  | .got _ _ :: h => lastPut key h

/-- Every read returns what was written last. -/
def Legal : List (StoreOp κ β) → Prop
  | [] => True
  | .put _ _ :: h => Legal h
  | .got key value :: h => (∀ v, lastPut key h = some v → value = v) ∧ Legal h

theorem lastPut_put (key k : κ) (value : β) (h : List (StoreOp κ β)) :
    lastPut key (.put k value :: h) = if k = key then some value else lastPut key h := rfl

/-- What lies behind an operation of a legal history is legal. -/
theorem Legal.suffix {newer older : List (StoreOp κ β)} (h : Legal (newer ++ older)) :
    Legal older := by
  induction newer with
  | nil => exact h
  | cons op newer ih =>
    cases op with
    | put key value => exact ih h
    | got key value => exact ih h.2

/-- A read anywhere in a legal history. -/
theorem Legal.got_eq {newer older : List (StoreOp κ β)} {key : κ} {value v : β}
    (h : Legal (newer ++ .got key value :: older)) (hput : lastPut key older = some v) :
    value = v :=
  h.suffix.1 v hput

end NetLabs.Lib
