import Mathlib.Tactic.TypeStar

/-!
# Labelled transition systems

A system is a set of initial states and a labelled step relation.  The labels
name the steps, so a path can be restricted to the labels that a statement
allows.

* `System.Path` is a finite sequence of steps with allowed labels.
* `System.Reachable` is reachability from an initial state by any labels, and
  `Reachable.invariant` is the induction that every invariant proof uses.
* `System.exists_path_of_measure` turns "some path makes progress" into "some
  path arrives", by induction on a natural-number measure.
* `Simulation` is a forward simulation in which one concrete step is matched
  by a finite path, and `Simulation.reachable` carries reachable states over.
-/

namespace NetLabs.Lib

/-- Initial states and labelled steps. -/
structure System (σ ε : Type*) where
  init : σ → Prop
  step : σ → ε → σ → Prop

namespace System

variable {σ ε : Type*} (M : System σ ε)

/-- A finite sequence of steps whose labels are all allowed. -/
inductive Path (allowed : ε → Prop) : σ → σ → Prop
  | refl (s : σ) : Path allowed s s
  | tail {s t u : σ} {e : ε} (path : Path allowed s t) (hallowed : allowed e)
      (hstep : M.step t e u) : Path allowed s u

/-- Reachable from an initial state. -/
inductive Reachable : σ → Prop
  | init {s : σ} (hinit : M.init s) : Reachable s
  | step {s t : σ} {e : ε} (hreach : Reachable s) (hstep : M.step s e t) : Reachable t

/-- A finite sequence of steps with the list of its labels. -/
inductive Trace : σ → List ε → σ → Prop
  | nil (s : σ) : Trace s [] s
  | snoc {s t u : σ} {es : List ε} {e : ε} (trace : Trace s es t) (hstep : M.step t e u) :
      Trace s (es ++ [e]) u

variable {M}

/-! ## Paths -/

theorem Path.single {allowed : ε → Prop} {s t : σ} {e : ε} (he : allowed e)
    (hstep : M.step s e t) : M.Path allowed s t :=
  .tail (.refl s) he hstep

theorem Path.trans {allowed : ε → Prop} {s t u : σ} (hst : M.Path allowed s t)
    (htu : M.Path allowed t u) : M.Path allowed s u := by
  induction htu with
  | refl => exact hst
  | tail _ he hstep ih => exact .tail ih he hstep

theorem Path.mono {allowed allowed' : ε → Prop} (h : ∀ e, allowed e → allowed' e) {s t : σ}
    (hst : M.Path allowed s t) : M.Path allowed' s t := by
  induction hst with
  | refl => exact .refl _
  | tail _ he hstep ih => exact .tail ih (h _ he) hstep

/-- A predicate that every allowed step keeps holds along the whole path. -/
theorem Path.invariant {allowed : ε → Prop} {P : σ → Prop}
    (hkeep : ∀ s e t, P s → allowed e → M.step s e t → P t)
    {s t : σ} (hst : M.Path allowed s t) (hs : P s) : P t := by
  induction hst with
  | refl => exact hs
  | tail _ he hstep ih => exact hkeep _ _ _ ih he hstep

/-! ## Reachability -/

theorem Reachable.path {allowed : ε → Prop} {s t : σ} (hs : M.Reachable s)
    (hst : M.Path allowed s t) : M.Reachable t := by
  induction hst with
  | refl => exact hs
  | tail _ _ hstep ih => exact .step ih hstep

/-- The runs whose steps all satisfy a condition. -/
def restrict (M : System σ ε) (ok : σ → ε → Prop) : System σ ε where
  init := M.init
  step s e t := ok s e ∧ M.step s e t

theorem Reachable.of_restrict {ok : σ → ε → Prop} {s : σ} (hs : (M.restrict ok).Reachable s) :
    M.Reachable s := by
  induction hs with
  | init h => exact .init h
  | step _ hstep ih => exact .step ih hstep.2

/-- A weaker condition allows more runs. -/
theorem Reachable.restrict_mono {ok ok' : σ → ε → Prop} (h : ∀ s e, ok s e → ok' s e) {s : σ}
    (hs : (M.restrict ok).Reachable s) : (M.restrict ok').Reachable s := by
  induction hs with
  | init hinit => exact .init hinit
  | step _ hstep ih => exact .step ih ⟨h _ _ hstep.1, hstep.2⟩

/-- The invariant rule.  The step case may use that its source is reachable,
so one invariant can be proved on top of another. -/
theorem Reachable.invariant {P : σ → Prop} (hinit : ∀ s, M.init s → P s)
    (hkeep : ∀ s e t, M.Reachable s → P s → M.step s e t → P t)
    {s : σ} (hs : M.Reachable s) : P s := by
  induction hs with
  | init h => exact hinit _ h
  | step hreach hstep ih => exact hkeep _ _ _ hreach ih hstep

/-! ## Progress -/

/-- If every `P`-state that is not a goal has a path to a `P`-state of smaller
measure, then every `P`-state has a path to a goal. -/
theorem exists_path_of_measure {allowed : ε → Prop} {P Q : σ → Prop} (μ : σ → Nat)
    (hprogress : ∀ s, P s → ¬ Q s → ∃ t, M.Path allowed s t ∧ P t ∧ μ t < μ s)
    {s : σ} (hs : P s) : ∃ t, M.Path allowed s t ∧ P t ∧ Q t := by
  induction hn : μ s using Nat.strongRecOn generalizing s with
  | ind n ih =>
    by_cases hq : Q s
    · exact ⟨s, .refl s, hs, hq⟩
    · obtain ⟨t, hst, ht, hlt⟩ := hprogress s hs hq
      obtain ⟨u, htu, hu⟩ := ih (μ t) (hn ▸ hlt) ht rfl
      exact ⟨u, hst.trans htu, hu⟩

end System

/-! ## Simulation -/

/-- A forward simulation from `C` to `A`.  One step of `C` is matched by a
finite path of `A`, which may be empty. -/
structure Simulation {σ ε τ δ : Type*} (C : System σ ε) (A : System τ δ)
    (R : σ → τ → Prop) : Prop where
  init : ∀ s, C.init s → ∃ a, A.init a ∧ R s a
  step : ∀ s e t a, C.Reachable s → R s a → C.step s e t →
    ∃ b, A.Path (fun _ => True) a b ∧ R t b

/-- A simulation carries every reachable state of `C` to a related reachable
state of `A`. -/
theorem Simulation.reachable {σ ε τ δ : Type*} {C : System σ ε} {A : System τ δ}
    {R : σ → τ → Prop} (hsim : Simulation C A R) {s : σ} (hs : C.Reachable s) :
    ∃ a, A.Reachable a ∧ R s a := by
  induction hs with
  | init h =>
    obtain ⟨a, ha, hR⟩ := hsim.init _ h
    exact ⟨a, .init ha, hR⟩
  | step hreach hstep ih =>
    obtain ⟨a, ha, hR⟩ := ih
    obtain ⟨b, hab, hR'⟩ := hsim.step _ _ _ a hreach hR hstep
    exact ⟨b, ha.path hab, hR'⟩

end NetLabs.Lib
