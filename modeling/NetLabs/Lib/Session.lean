import NetLabs.Lib.Determinacy

/-!
# Two parties on a FIFO connection

* `Proc μ α` is a program that sends and receives messages of type `μ` and
  returns an `α`, or ends its process (`halt`).  It is a monad, so programs are
  written with `do`.
* `Session` is two parties with a queue in each direction, and `Step` lets
  either of them go next.  `step_diamond` makes the order irrelevant.
* `Proc.meet` runs two programs in lockstep.  `reaches_meet` turns what it
  computes into a run of the session.
* `Proc.Sends` is a property of every message a program can send, and
  `step_carries` keeps it for the messages in flight.
-/

namespace NetLabs.Lib

open Relation

/-! ## Programs -/

/-- `send` is told whether sending worked; `recv` gets `none` when the peer is
gone. -/
inductive Proc (μ α : Type) : Type
  | done (a : α)
  | halt
  | send (m : μ) (next : Bool → Proc μ α)
  | recv (next : Option μ → Proc μ α)

namespace Proc

variable {μ α β : Type}

def bind : Proc μ α → (α → Proc μ β) → Proc μ β
  | done a, f => f a
  | halt, _ => halt
  | send m next, f => send m fun ok => (next ok).bind f
  | recv next, f => recv fun m => (next m).bind f

instance : Monad (Proc μ) where
  pure := done
  bind := bind

@[simp] theorem pure_eq (a : α) : (pure a : Proc μ α) = done a := rfl

@[simp] theorem done_bind (a : α) (f : α → Proc μ β) : done a >>= f = f a := rfl

@[simp] theorem halt_bind (f : α → Proc μ β) : (halt : Proc μ α) >>= f = halt := rfl

@[simp] theorem send_bind (m : μ) (next : Bool → Proc μ α) (f : α → Proc μ β) :
    send m next >>= f = send m fun ok => next ok >>= f := rfl

@[simp] theorem recv_bind (next : Option μ → Proc μ α) (f : α → Proc μ β) :
    recv next >>= f = recv fun m => next m >>= f := rfl

/-- Send a message and return whether that worked. -/
def post (m : μ) : Proc μ Bool := send m done

/-- Return the next message. -/
def receive : Proc μ (Option μ) := recv done

@[simp] theorem post_bind (m : μ) (f : Bool → Proc μ β) : post m >>= f = send m f := rfl

@[simp] theorem receive_bind (f : Option μ → Proc μ β) : receive >>= f = recv f := rfl

theorem bind_assoc {γ : Type} (p : Proc μ α) (f : α → Proc μ β) (g : β → Proc μ γ) :
    p >>= f >>= g = p >>= fun a => f a >>= g := by
  induction p with
  | done a => rfl
  | halt => rfl
  | send m next ih => exact congrArg (send m) (funext ih)
  | recv next ih => exact congrArg recv (funext ih)

/-- What a program does after its first message. -/
@[simp] def sent : Proc μ α → Proc μ α
  | send _ next => next true
  | p => p

/-- Both programs in lockstep: a message is received as soon as it is sent. -/
@[simp] def meet : Proc μ α → Proc μ β → Proc μ α × Proc μ β
  | send m next, recv next' => meet (next true) (next' (some m))
  | recv next, send m next' => meet (next (some m)) (next' true)
  | p, q => (p, q)

/-- Every message that the program can send satisfies `P`. -/
inductive Sends (P : μ → Prop) : Proc μ α → Prop
  | done (a : α) : Sends P (done a)
  | halt : Sends P halt
  | send {m : μ} {next : Bool → Proc μ α} (hm : P m) (hnext : ∀ ok, Sends P (next ok)) :
      Sends P (send m next)
  | recv {next : Option μ → Proc μ α} (hnext : ∀ m, Sends P (next m)) : Sends P (recv next)

theorem Sends.post {P : μ → Prop} {m : μ} {f : Bool → Proc μ α} (hm : P m)
    (hf : ∀ ok, (f ok).Sends P) : (Proc.post m >>= f).Sends P :=
  .send hm hf

theorem Sends.receive {P : μ → Prop} {f : Option μ → Proc μ α} (hf : ∀ m, (f m).Sends P) :
    (Proc.receive >>= f).Sends P :=
  .recv hf

theorem Sends.mono {P P' : μ → Prop} {p : Proc μ α} (hp : p.Sends P) (h : ∀ m, P m → P' m) :
    p.Sends P' := by
  induction hp with
  | done a => exact .done a
  | halt => exact .halt
  | send hm _ ih => exact .send (h _ hm) ih
  | recv _ ih => exact .recv ih

theorem Sends.bind {P : μ → Prop} {p : Proc μ α} {f : α → Proc μ β} (hp : p.Sends P)
    (hf : ∀ a, (f a).Sends P) : (p >>= f).Sends P := by
  induction hp with
  | done a => exact hf a
  | halt => exact .halt
  | send hm _ ih => exact .send hm ih
  | recv _ ih => exact .recv ih

end Proc

/-! ## Parties -/

/-- What a party in some state does next.  `idle` waits for something outside
the session. -/
inductive Action (μ σ : Type) : Type
  | idle
  | halted
  | send (m : μ) (next : σ)
  | recv (next : Option μ → σ)

/-- A program as a party; `loop` says what it does after it has returned. -/
def Proc.act {μ α : Type} (loop : α → Action μ (Proc μ α)) :
    Proc μ α → Action μ (Proc μ α)
  | done a => loop a
  | halt => .halted
  | send m next => .send m (next true)
  | recv next => .recv next

/-- The state of the two parties and the messages on their way. -/
structure Session (μ σ τ : Type) where
  left : σ
  right : τ
  toLeft : List μ
  toRight : List μ

namespace Action

variable {μ σ : Type}

/-- One step of a party: its next state, what is left in its inbox and what it
sends.  `none` when it cannot move. -/
def perform (a : Action μ σ) (inbox : List μ) (closed : Bool) : Option (σ × List μ × List μ) :=
  match a, inbox with
  | .send m next, inbox => some (next, inbox, [m])
  | .recv next, m :: inbox => some (next (some m), inbox, [])
  | .recv next, [] => if closed then some (next none, [], []) else none
  | .idle, _ => none
  | .halted, _ => none

def isHalted : Action μ σ → Bool
  | halted => true
  | _ => false

theorem isHalted_of_perform {a : Action μ σ} {inbox : List μ} {closed : Bool}
    {out : σ × List μ × List μ} (h : a.perform inbox closed = some out) : a.isHalted = false := by
  cases a with
  | idle | send | recv => rfl
  | halted => cases h

/-- More messages, or a peer that ends, do not change a step. -/
theorem perform_append {a : Action μ σ} {inbox inbox' sent : List μ} {s : σ}
    (h : a.perform inbox false = some (s, inbox', sent)) (more : List μ) (closed : Bool) :
    a.perform (inbox ++ more) closed = some (s, inbox' ++ more, sent) := by
  cases a with
  | idle | halted => cases h
  | send m next =>
    cases h
    rfl
  | recv next =>
    cases inbox with
    | nil => cases h
    | cons m inbox =>
      cases h
      rfl

end Action

/-! ## Steps of a session -/

namespace Session

variable {μ σ τ : Type} (actL : σ → Action μ σ) (actR : τ → Action μ τ)

inductive Step : Session μ σ τ → Session μ σ τ → Prop
  | left {s : Session μ σ τ} {p : σ} {inbox sent : List μ}
      (h : (actL s.left).perform s.toLeft (actR s.right).isHalted = some (p, inbox, sent)) :
      Step s ⟨p, s.right, inbox, s.toRight ++ sent⟩
  | right {s : Session μ σ τ} {q : τ} {inbox sent : List μ}
      (h : (actR s.right).perform s.toRight (actL s.left).isHalted = some (q, inbox, sent)) :
      Step s ⟨s.left, q, s.toLeft ++ sent, inbox⟩

variable {actL actR}

/-- The two parties commute, and each is deterministic. -/
theorem step_diamond : Diamond (Step actL actR) := by
  intro s t t' ht ht'
  cases ht with
  | left h =>
    cases ht' with
    | left h' =>
      rw [h] at h'
      cases h'
      exact .inl rfl
    | right h' =>
      right
      rw [Action.isHalted_of_perform h'] at h
      rw [Action.isHalted_of_perform h] at h'
      exact ⟨_, .right (Action.perform_append h' _ _), .left (Action.perform_append h _ _)⟩
  | right h =>
    cases ht' with
    | left h' =>
      right
      rw [Action.isHalted_of_perform h] at h'
      rw [Action.isHalted_of_perform h'] at h
      exact ⟨_, .left (Action.perform_append h' _ _), .right (Action.perform_append h _ _)⟩
    | right h' =>
      rw [h] at h'
      cases h'
      exact .inl rfl

theorem stuck_of_perform {s : Session μ σ τ}
    (hleft : (actL s.left).perform s.toLeft (actR s.right).isHalted = none)
    (hright : (actR s.right).perform s.toRight (actL s.left).isHalted = none) :
    Stuck (Step actL actR) s := by
  intro t ht
  cases ht with
  | left h =>
    rw [hleft] at h
    cases h
  | right h =>
    rw [hright] at h
    cases h

/-- A party that has ended stays as it is. -/
theorem right_of_halted {s t : Session μ σ τ} (h : ReflTransGen (Step actL actR) s t)
    (hs : actR s.right = .halted) : t.right = s.right := by
  induction h with
  | refl => rfl
  | tail _ hstep ih =>
    cases hstep with
    | left _ => exact ih
    | right h =>
      rw [ih, hs] at h
      cases h

/-- While the left party is idle only the right one moves, and it does the same
when the left one goes on meanwhile. -/
theorem replay_left {s t : Session μ σ τ} (h : ReflTransGen (Step actL actR) s t)
    (hidle : actL s.left = .idle) {p : σ} (hp : (actL p).isHalted = false) :
    t.left = s.left ∧
      ReflTransGen (Step actL actR) { s with left := p } { t with left := p } := by
  induction h with
  | refl => exact ⟨rfl, .refl⟩
  | tail _ hstep ih =>
    have ⟨hleft, hrun⟩ := ih
    cases hstep with
    | left h =>
      rw [hleft, hidle] at h
      cases h
    | @right q inbox sent h =>
      rw [hleft, hidle] at h
      refine ⟨hleft, hrun.tail (.right ?_)⟩
      rw [hp]
      exact h

end Session

/-! ## Sessions of programs -/

section Programs

variable {μ α β : Type} {loopL : α → Action μ (Proc μ α)} {loopR : β → Action μ (Proc μ β)}

theorem step_left_send (m : μ) (next : Bool → Proc μ α) (q : Proc μ β) (xs ys : List μ) :
    Session.Step (Proc.act loopL) (Proc.act loopR) ⟨.send m next, q, xs, ys⟩
      ⟨next true, q, xs, ys ++ [m]⟩ :=
  .left rfl

theorem step_left_recv (m : μ) (next : Option μ → Proc μ α) (q : Proc μ β) (xs ys : List μ) :
    Session.Step (Proc.act loopL) (Proc.act loopR) ⟨.recv next, q, m :: xs, ys⟩
      ⟨next (some m), q, xs, ys ++ []⟩ :=
  .left rfl

theorem step_right_send (m : μ) (next : Bool → Proc μ β) (p : Proc μ α) (xs ys : List μ) :
    Session.Step (Proc.act loopL) (Proc.act loopR) ⟨p, .send m next, xs, ys⟩
      ⟨p, next true, xs ++ [m], ys⟩ :=
  .right rfl

theorem step_right_recv (m : μ) (next : Option μ → Proc μ β) (p : Proc μ α) (xs ys : List μ) :
    Session.Step (Proc.act loopL) (Proc.act loopR) ⟨p, .recv next, xs, m :: ys⟩
      ⟨p, next (some m), xs ++ [], ys⟩ :=
  .right rfl

/-- What lockstep computes is reached by a run. -/
theorem reaches_meet (p : Proc μ α) (q : Proc μ β) :
    ReflTransGen (Session.Step (Proc.act loopL) (Proc.act loopR)) ⟨p, q, [], []⟩
      ⟨(p.meet q).1, (p.meet q).2, [], []⟩ := by
  fun_induction Proc.meet p q with
  | case1 m next next' ih =>
    exact .head (step_left_send m next _ [] []) (.head (step_right_recv m next' _ [] []) ih)
  | case2 next m next' ih =>
    exact .head (step_right_send m next' _ [] []) (.head (step_left_recv m next _ [] []) ih)
  | case3 => exact .refl

/-- The first message to a party that waits in its loop. -/
theorem reaches_request {m : μ} {next : Bool → Proc μ α} {b : β}
    {next' : Option μ → Proc μ β} (hloop : loopR b = .recv next') :
    ReflTransGen (Session.Step (Proc.act loopL) (Proc.act loopR))
      ⟨.send m next, .done b, [], []⟩ ⟨next true, next' (some m), [], []⟩ := by
  refine .head (step_left_send m next _ [] []) (.single (.right ?_))
  show (loopR b).perform [m] _ = _
  rw [hloop]
  rfl

/-- The messages that a loop can send satisfy `P`. -/
def Action.Sends (P : μ → Prop) : Action μ (Proc μ α) → Prop
  | idle => True
  | halted => True
  | send m next => P m ∧ next.Sends P
  | recv next => ∀ m, (next m).Sends P

/-- What both parties can send, and what is on its way, satisfies `P`. -/
structure Session.Carries (P : μ → Prop) (s : Session μ (Proc μ α) (Proc μ β)) : Prop where
  left : s.left.Sends P
  right : s.right.Sends P
  toLeft : ∀ m ∈ s.toLeft, P m
  toRight : ∀ m ∈ s.toRight, P m

theorem Proc.Sends.act {P : μ → Prop} (hloop : ∀ a, (loopL a).Sends P) {p : Proc μ α}
    (hp : p.Sends P) : (p.act loopL).Sends P := by
  cases hp with
  | done a => exact hloop a
  | halt => trivial
  | send hm hnext => exact ⟨hm, hnext true⟩
  | recv hnext => exact hnext

theorem Action.Sends.perform {P : μ → Prop} {a : Action μ (Proc μ α)} (ha : a.Sends P)
    {inbox inbox' sent : List μ} {closed : Bool} {p : Proc μ α}
    (h : a.perform inbox closed = some (p, inbox', sent)) :
    p.Sends P ∧ (∀ m ∈ inbox', m ∈ inbox) ∧ ∀ m ∈ sent, P m := by
  cases a with
  | idle | halted => cases h
  | send m next =>
    cases h
    exact ⟨ha.2, fun _ hm => hm, by simpa using ha.1⟩
  | recv next =>
    cases inbox with
    | nil =>
      cases closed with
      | false => cases h
      | true =>
        cases h
        exact ⟨ha none, by simp, by simp⟩
    | cons m inbox =>
      cases h
      exact ⟨ha (some m), fun _ hm => List.mem_cons_of_mem _ hm, by simp⟩

/-- Every step keeps it. -/
theorem step_carries {P : μ → Prop} (hL : ∀ a, (loopL a).Sends P) (hR : ∀ b, (loopR b).Sends P)
    {s t : Session μ (Proc μ α) (Proc μ β)}
    (h : Session.Step (Proc.act loopL) (Proc.act loopR) s t) (hs : s.Carries P) :
    t.Carries P := by
  cases h with
  | left h =>
    have ⟨hp, hinbox, hsent⟩ := (hs.left.act hL).perform h
    refine ⟨hp, hs.right, fun m hm => hs.toLeft m (hinbox m hm), fun m hm => ?_⟩
    rcases List.mem_append.mp hm with hm | hm
    · exact hs.toRight m hm
    · exact hsent m hm
  | right h =>
    have ⟨hq, hinbox, hsent⟩ := (hs.right.act hR).perform h
    refine ⟨hs.left, hq, fun m hm => ?_, fun m hm => hs.toRight m (hinbox m hm)⟩
    rcases List.mem_append.mp hm with hm | hm
    · exact hs.toLeft m hm
    · exact hsent m hm

end Programs

end NetLabs.Lib
