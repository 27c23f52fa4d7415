import Mathlib.Logic.Relation

/-!
# Relations with the diamond property

When two steps from one state always meet again after one step each, a single
run that ends in a stuck state decides about all runs: none is infinite
(`Diamond.acc`) and every one can be continued to that stuck state
(`Diamond.reaches`).  So a concurrent system needs one schedule only.
-/

namespace NetLabs.Lib

open Relation

variable {α : Type*} {r : α → α → Prop}

/-- Two steps from one state are the same, or each is completed by one more. -/
def Diamond (r : α → α → Prop) : Prop :=
  ∀ a b c, r a b → r a c → b = c ∨ ∃ d, r b d ∧ r c d

/-- No step is possible. -/
def Stuck (r : α → α → Prop) (a : α) : Prop := ∀ b, ¬ r a b

/-- Runs of `n` steps. -/
inductive Steps (r : α → α → Prop) : Nat → α → α → Prop
  | refl (a : α) : Steps r 0 a a
  | head {n : Nat} {a b c : α} (hab : r a b) (hbc : Steps r n b c) : Steps r (n + 1) a c

theorem Steps.of_reflTransGen {a b : α} (h : ReflTransGen r a b) : ∃ n, Steps r n a b := by
  induction h using ReflTransGen.head_induction_on with
  | refl => exact ⟨0, .refl b⟩
  | head hstep _ ih =>
    have ⟨n, hn⟩ := ih
    exact ⟨n + 1, .head hstep hn⟩

theorem Steps.reflTransGen {n : Nat} {a b : α} (h : Steps r n a b) : ReflTransGen r a b := by
  induction h with
  | refl => exact .refl
  | head hstep _ ih => exact .head hstep ih

theorem Stuck.eq_of_reflTransGen {a b : α} (ha : Stuck r a) (h : ReflTransGen r a b) : b = a :=
  (reflTransGen_iff_eq ha).mp h

/-- Where no run is infinite some run gets stuck. -/
theorem exists_stuck {a : α} (h : Acc (fun b a => r a b) a) :
    ∃ z, ReflTransGen r a z ∧ Stuck r z := by
  induction h with
  | intro a _ ih =>
    by_cases hstuck : Stuck r a
    · exact ⟨a, .refl, hstuck⟩
    · have ⟨b, hab⟩ : ∃ b, r a b := by simpa [Stuck] using hstuck
      have ⟨z, hbz, hz⟩ := ih b hab
      exact ⟨z, .head hab hbz, hz⟩

namespace Diamond

variable (hr : Diamond r) {z : α} (hz : Stuck r z)

include hr hz

/-- Any first step is the first step of a run to `z` of the same length. -/
theorem steps_of_step {n : Nat} {a b : α} (h : Steps r n a z) (hab : r a b) :
    ∃ m, n = m + 1 ∧ Steps r m b z := by
  induction h generalizing b with
  | refl => exact absurd hab (hz b)
  | @head n a a' z haa' hrest ih =>
    rcases hr a b a' hab haa' with heq | ⟨d, hbd, had⟩
    · subst heq
      exact ⟨n, rfl, hrest⟩
    · have ⟨m, hm, hdz⟩ := ih hz had
      exact ⟨n, rfl, hm ▸ .head hbd hdz⟩

/-- No infinite run starts where some run ends in a stuck state. -/
theorem acc {a : α} (h : ReflTransGen r a z) : Acc (fun b a => r a b) a := by
  have ⟨n, hsteps⟩ := Steps.of_reflTransGen h
  clear h
  induction n generalizing a with
  | zero =>
    cases hsteps
    exact ⟨z, fun b hb => absurd hb (hz b)⟩
  | succ n ih =>
    refine ⟨a, fun b hab => ?_⟩
    have ⟨m, hm, hbz⟩ := hr.steps_of_step hz hsteps hab
    have heq : m = n := by omega
    subst heq
    exact ih hbz

/-- Every run can be continued to the stuck state. -/
theorem reaches {a b : α} (haz : ReflTransGen r a z) (hab : ReflTransGen r a b) :
    ReflTransGen r b z := by
  induction hab with
  | refl => exact haz
  | tail _ hstep ih =>
    have ⟨n, hsteps⟩ := Steps.of_reflTransGen ih
    have ⟨m, _, hrest⟩ := hr.steps_of_step hz hsteps hstep
    exact hrest.reflTransGen

/-- There is one stuck state only. -/
theorem stuck_unique {a b : α} (haz : ReflTransGen r a z) (hab : ReflTransGen r a b)
    (hb : Stuck r b) : b = z :=
  (hb.eq_of_reflTransGen (hr.reaches hz haz hab)).symm

end Diamond

end NetLabs.Lib
