import NetLabs.Lib.Session

/-!
# Contracts of programs

* `Proc.Keeps R G Q` is the contract of a program: as long as what it receives
  satisfies `R`, what it sends satisfies `G` and what it returns satisfies `Q`.
  It has one rule for each operation and one for `bind`.
* `Proc.Returns Q` is the contract of a program on its own, for any messages.
  `Proc.Ends Q` says in addition that its process does not end in it.
  `Proc.play` runs a program on given results of its sends and receives, and
  `Proc.Leaves p q` says that `q` is left of `p` after some of them.
* `FaultyStep` are the steps of two programs on a connection on which any send
  and any receive may fail.  `FaultyStep.kept` lets the contracts of the two
  programs rely on each other.
-/

namespace NetLabs.Lib

open Relation

variable {μ α β : Type}

namespace Proc

/-- What the program sends satisfies `G` and what it returns satisfies `Q`, as
long as it receives messages that satisfy `R`. -/
inductive Keeps (R G : μ → Prop) (Q : α → Prop) : Proc μ α → Prop
  | done {a : α} (ha : Q a) : Keeps R G Q (done a)
  | halt : Keeps R G Q halt
  | send {m : μ} {next : Bool → Proc μ α} (hm : G m) (hnext : ∀ ok, Keeps R G Q (next ok)) :
      Keeps R G Q (send m next)
  | recv {next : Option μ → Proc μ α} (hnone : Keeps R G Q (next none))
      (hsome : ∀ m, R m → Keeps R G Q (next (some m))) : Keeps R G Q (recv next)

variable {R G : μ → Prop} {Q : α → Prop} {Q' : β → Prop}

/-- Sending goes on in one of two ways. -/
theorem Keeps.post {m : μ} {f : Bool → Proc μ α} (hm : G m) (hfalse : (f false).Keeps R G Q)
    (htrue : (f true).Keeps R G Q) : (Proc.post m >>= f).Keeps R G Q := by
  refine .send hm fun ok => ?_
  cases ok with
  | false => exact hfalse
  | true => exact htrue

theorem Keeps.receive {f : Option μ → Proc μ α} (hnone : (f none).Keeps R G Q)
    (hsome : ∀ m, R m → (f (some m)).Keeps R G Q) : (Proc.receive >>= f).Keeps R G Q :=
  .recv hnone hsome

theorem Keeps.bind {p : Proc μ α} {f : α → Proc μ β} (hp : p.Keeps R G Q)
    (hf : ∀ a, Q a → (f a).Keeps R G Q') : (p >>= f).Keeps R G Q' := by
  induction hp with
  | done ha => exact hf _ ha
  | halt => exact .halt
  | send hm _ ih => exact .send hm ih
  | recv _ _ ihnone ihsome => exact .recv ihnone ihsome

theorem Keeps.mono {S : α → Prop} {p : Proc μ α} (hp : p.Keeps R G Q) (hQ : ∀ a, Q a → S a) :
    p.Keeps R G S := by
  induction hp with
  | done ha => exact .done (hQ _ ha)
  | halt => exact .halt
  | send hm _ ih => exact .send hm ih
  | recv _ _ ihnone ihsome => exact .recv ihnone ihsome

/-- The contract of a program that relies on nothing. -/
abbrev Returns (Q : α → Prop) (p : Proc μ α) : Prop := p.Keeps (fun _ => True) (fun _ => True) Q

theorem returns_true (p : Proc μ α) : p.Returns fun _ => True := by
  induction p with
  | done a => exact .done trivial
  | halt => exact .halt
  | send m next ih => exact .send trivial ih
  | recv next ih => exact .recv (ih none) fun m _ => ih (some m)

/-- Whatever its sends and receives return, the program comes to an end without
ending its process, and what it returns satisfies `Q`. -/
inductive Ends (Q : α → Prop) : Proc μ α → Prop
  | done {a : α} (ha : Q a) : Ends Q (done a)
  | send {m : μ} {next : Bool → Proc μ α} (hnext : ∀ ok, Ends Q (next ok)) : Ends Q (send m next)
  | recv {next : Option μ → Proc μ α} (hnext : ∀ m, Ends Q (next m)) : Ends Q (recv next)

theorem not_ends_halt : ¬ (halt : Proc μ α).Ends Q := nofun

theorem Ends.post {m : μ} {f : Bool → Proc μ α} (hfalse : (f false).Ends Q)
    (htrue : (f true).Ends Q) : (Proc.post m >>= f).Ends Q := by
  refine .send fun ok => ?_
  cases ok with
  | false => exact hfalse
  | true => exact htrue

theorem Ends.receive {f : Option μ → Proc μ α} (hnone : (f none).Ends Q)
    (hsome : ∀ m, (f (some m)).Ends Q) : (Proc.receive >>= f).Ends Q := by
  refine .recv fun m => ?_
  cases m with
  | none => exact hnone
  | some m => exact hsome m

/-- What a program returns when its sends and receives have these results.
`none` when the process ends, or when there is no result for a call. -/
@[simp] def play : Proc μ α → List Bool → List (Option μ) → Option α
  | done a, _, _ => some a
  | halt, _, _ => none
  | send _ next, ok :: sends, recvs => (next ok).play sends recvs
  | send _ _, [], _ => none
  | recv next, sends, m :: recvs => (next m).play sends recvs
  | recv _, _, [] => none

/-- The message that answers the first one, when neither call has failed. -/
def answer : List Bool → List (Option μ) → Option μ
  | true :: _, some m :: _ => some m
  | _, _ => none

/-- A program that sends and waits for the answer, and that returns `a` when
there is none. -/
theorem play_request {m : μ} {a b : α} {next : Bool → Proc μ α} {next' : Option μ → Proc μ α}
    {sends : List Bool} {recvs : List (Option μ)}
    (h : (post m >>= next).play sends recvs = some b) (hfalse : next false = done a)
    (htrue : next true = receive >>= next') (hnone : next' none = done a) :
    answer sends recvs = none ∧ b = a ∨
      ∃ reply, answer sends recvs = some reply ∧
        (next' (some reply)).play sends.tail recvs.tail = some b := by
  rw [receive_bind] at htrue
  rw [post_bind] at h
  match sends, recvs with
  | [], _ => cases h
  | false :: _, _ =>
    rw [play, hfalse] at h
    exact .inl ⟨rfl, (Option.some.inj h).symm⟩
  | true :: _, [] =>
    rw [play, htrue] at h
    cases h
  | true :: _, none :: _ =>
    rw [play, htrue, play, hnone] at h
    exact .inl ⟨rfl, (Option.some.inj h).symm⟩
  | true :: _, some reply :: _ =>
    rw [play, htrue, play] at h
    exact .inr ⟨reply, rfl, h⟩

theorem Keeps.play {p : Proc μ α} (hp : p.Returns Q) {sends : List Bool}
    {recvs : List (Option μ)} {a : α} (h : p.play sends recvs = some a) : Q a := by
  induction hp generalizing sends recvs with
  | done ha =>
    cases h
    exact ha
  | halt => cases h
  | send _ _ ih =>
    cases sends with
    | nil => cases h
    | cons ok sends => exact ih ok h
  | recv _ _ ihnone ihsome =>
    cases recvs with
    | nil => cases h
    | cons m recvs =>
      cases m with
      | none => exact ihnone h
      | some m => exact ihsome m trivial h

theorem Ends.returns {p : Proc μ α} (hp : p.Ends Q) : p.Returns Q := by
  induction hp with
  | done ha => exact .done ha
  | send _ ih => exact .send trivial ih
  | recv _ ih => exact .recv (ih none) fun m _ => ih (some m)

/-- `q` is what is left of `p` after some sends and receives. -/
inductive Leaves (p : Proc μ α) : Proc μ α → Prop
  | all : Leaves p p
  | send {m : μ} {next : Bool → Proc μ α} (h : Leaves p (send m next)) (ok : Bool) :
      Leaves p (next ok)
  | recv {next : Option μ → Proc μ α} (h : Leaves p (recv next)) (m : Option μ) :
      Leaves p (next m)

/-- What is left of a program keeps its contract. -/
theorem Leaves.returns {p q : Proc μ α} (h : Leaves p q) (hp : p.Returns Q) : q.Returns Q := by
  induction h with
  | all => exact hp
  | send _ ok ih =>
    cases ih with
    | send _ hnext => exact hnext ok
  | recv _ m ih =>
    cases ih with
    | recv hnone hsome =>
      cases m with
      | none => exact hnone
      | some m => exact hsome m trivial

/-- What is left of a program that relies on nothing makes the same promises. -/
theorem Leaves.keeps {p q : Proc μ α} (h : Leaves p q) (hp : p.Keeps (fun _ => True) G Q) :
    q.Keeps (fun _ => True) G Q := by
  induction h with
  | all => exact hp
  | send _ ok ih =>
    cases ih with
    | send _ hnext => exact hnext ok
  | recv _ m ih =>
    cases ih with
    | recv hnone hsome =>
      cases m with
      | none => exact hnone
      | some m => exact hsome m trivial

/-- What is left of a program that comes to its end does so too. -/
theorem Leaves.ends {p q : Proc μ α} (h : Leaves p q) (hp : p.Ends Q) : q.Ends Q := by
  induction h with
  | all => exact hp
  | send _ ok ih =>
    cases ih with
    | send hnext => exact hnext ok
  | recv _ m ih =>
    cases ih with
    | recv hnext => exact hnext m

/-- What a program returns at the end. -/
theorem Leaves.done {p : Proc μ α} {a : α} (h : Leaves p (.done a)) (hp : p.Returns Q) : Q a := by
  cases h.returns hp with
  | done ha => exact ha

/-- The program receives nothing. -/
inductive Deaf : Proc μ α → Prop
  | done (a : α) : Deaf (done a)
  | halt : Deaf halt
  | send {m : μ} {next : Bool → Proc μ α} (hnext : ∀ ok, Deaf (next ok)) : Deaf (send m next)

theorem Deaf.post {m : μ} {f : Bool → Proc μ α} (hfalse : (f false).Deaf) (htrue : (f true).Deaf) :
    (Proc.post m >>= f).Deaf := by
  refine .send fun ok => ?_
  cases ok with
  | false => exact hfalse
  | true => exact htrue

theorem Leaves.deaf {p q : Proc μ α} (h : Leaves p q) (hp : p.Deaf) : q.Deaf := by
  induction h with
  | all => exact hp
  | send _ ok ih =>
    cases ih with
    | send hnext => exact hnext ok
  | recv _ m ih => cases ih

end Proc

/-! ## Two programs on a connection that may fail -/

/-- The steps of two programs.  A failed send puts nothing on the connection, a
failed receive takes nothing from it. -/
inductive FaultyStep : Session μ (Proc μ α) (Proc μ β) → Session μ (Proc μ α) (Proc μ β) → Prop
  | leftSend (m : μ) (next : Bool → Proc μ α) (q : Proc μ β) (xs ys : List μ) (ok : Bool) :
      FaultyStep ⟨.send m next, q, xs, ys⟩ ⟨next ok, q, xs, if ok then ys ++ [m] else ys⟩
  | leftRecv (m : μ) (next : Option μ → Proc μ α) (q : Proc μ β) (xs ys : List μ) :
      FaultyStep ⟨.recv next, q, m :: xs, ys⟩ ⟨next (some m), q, xs, ys⟩
  | leftLost (next : Option μ → Proc μ α) (q : Proc μ β) (xs ys : List μ) :
      FaultyStep ⟨.recv next, q, xs, ys⟩ ⟨next none, q, xs, ys⟩
  | rightSend (m : μ) (next : Bool → Proc μ β) (p : Proc μ α) (xs ys : List μ) (ok : Bool) :
      FaultyStep ⟨p, .send m next, xs, ys⟩ ⟨p, next ok, if ok then xs ++ [m] else xs, ys⟩
  | rightRecv (m : μ) (next : Option μ → Proc μ β) (p : Proc μ α) (xs ys : List μ) :
      FaultyStep ⟨p, .recv next, xs, m :: ys⟩ ⟨p, next (some m), xs, ys⟩
  | rightLost (next : Option μ → Proc μ β) (p : Proc μ α) (xs ys : List μ) :
      FaultyStep ⟨p, .recv next, xs, ys⟩ ⟨p, next none, xs, ys⟩

/-- Both programs keep their contracts, and what is on its way satisfies what
the receiver relies on. -/
structure Session.Kept (L R : μ → Prop) (QL : α → Prop) (QR : β → Prop)
    (s : Session μ (Proc μ α) (Proc μ β)) : Prop where
  left : s.left.Keeps L R QL
  right : s.right.Keeps R L QR
  toLeft : ∀ m ∈ s.toLeft, L m
  toRight : ∀ m ∈ s.toRight, R m

variable {L R : μ → Prop} {QL : α → Prop} {QR : β → Prop}
  {s t : Session μ (Proc μ α) (Proc μ β)}

private theorem forall_mem_sent {P : μ → Prop} {xs : List μ} {m : μ} (hxs : ∀ x ∈ xs, P x)
    (hm : P m) (ok : Bool) : ∀ x ∈ (if ok then xs ++ [m] else xs), P x := by
  cases ok with
  | false => exact hxs
  | true =>
    intro x hx
    rcases List.mem_append.mp hx with hx | hx
    · exact hxs x hx
    · rw [List.mem_singleton.mp hx]
      exact hm

theorem FaultyStep.kept (h : FaultyStep s t) (hs : s.Kept L R QL QR) : t.Kept L R QL QR := by
  obtain ⟨hleft, hright, htoLeft, htoRight⟩ := hs
  cases h with
  | leftSend m next q xs ys ok =>
    cases hleft with
    | send hm hnext => exact ⟨hnext ok, hright, htoLeft, forall_mem_sent htoRight hm ok⟩
  | leftRecv m next q xs ys =>
    cases hleft with
    | recv _ hsome =>
      exact ⟨hsome m (htoLeft m List.mem_cons_self), hright,
        fun x hx => htoLeft x (List.mem_cons_of_mem _ hx), htoRight⟩
  | leftLost next q xs ys =>
    cases hleft with
    | recv hnone _ => exact ⟨hnone, hright, htoLeft, htoRight⟩
  | rightSend m next p xs ys ok =>
    cases hright with
    | send hm hnext => exact ⟨hleft, hnext ok, forall_mem_sent htoLeft hm ok, htoRight⟩
  | rightRecv m next p xs ys =>
    cases hright with
    | recv _ hsome =>
      exact ⟨hleft, hsome m (htoRight m List.mem_cons_self), htoLeft,
        fun x hx => htoRight x (List.mem_cons_of_mem _ hx)⟩
  | rightLost next p xs ys =>
    cases hright with
    | recv hnone _ => exact ⟨hleft, hnone, htoLeft, htoRight⟩

/-- The contracts hold along every run. -/
theorem kept_of_reaches (h : ReflTransGen FaultyStep s t) (hs : s.Kept L R QL QR) :
    t.Kept L R QL QR := by
  induction h with
  | refl => exact hs
  | tail _ hstep ih => exact hstep.kept ih

theorem Session.Kept.left_done {a : α} (h : t.Kept L R QL QR) (ha : t.left = .done a) : QL a := by
  have hleft := h.left
  rw [ha] at hleft
  cases hleft with
  | done hQ => exact hQ

theorem Session.Kept.right_done {b : β} (h : t.Kept L R QL QR) (hb : t.right = .done b) :
    QR b := by
  have hright := h.right
  rw [hb] at hright
  cases hright with
  | done hQ => exact hQ

/-- Lockstep is one of the runs. -/
theorem faulty_reaches_meet (p : Proc μ α) (q : Proc μ β) :
    ReflTransGen FaultyStep ⟨p, q, [], []⟩ ⟨(p.meet q).1, (p.meet q).2, [], []⟩ := by
  fun_induction Proc.meet p q with
  | case1 m next next' ih =>
    exact .head (.leftSend m next _ [] [] true) (.head (.rightRecv m next' _ [] []) ih)
  | case2 next m next' ih =>
    exact .head (.rightSend m next' _ [] [] true) (.head (.leftRecv m next _ [] []) ih)
  | case3 => exact .refl

end NetLabs.Lib
