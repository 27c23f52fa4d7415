import NetLabs.Lib.Session

/-!
# Messages on a stream

The messages of a session go over a connection that carries a stream of elements.
A call of `send` or `recv` moves as many of them as it likes.

* `Io β α` is a program that makes such calls, and `CallStep` lets either of two
  parties make its next one.
* `Writes` and `Reads` say that a program moves certain elements and then goes on as
  another program, however the calls cut them.
* A `Codec` has a program that writes a message and one that reads a message, and
  `Codec.compile` puts them in the place of the messages.  `Codec.Sound` is what it
  has to satisfy.
-/

namespace NetLabs.Lib

open Relation

/-! ## Programs -/

/-- `send` and `recv` are told what the call returns, and `recv` also what it has
stored in the buffer. -/
inductive Io (β α : Type) : Type
  | done (a : α)
  | halt
  | send (buf : List β) (next : Int → Io β α)
  | recv (size : Nat) (next : Int → List β → Io β α)

/-- What a party does next. -/
inductive Call (β σ : Type) : Type
  | idle
  | halted
  | send (buf : List β) (next : Int → σ)
  | recv (size : Nat) (next : Int → List β → σ)

namespace Io

variable {β α γ : Type}

def bind : Io β α → (α → Io β γ) → Io β γ
  | done a, f => f a
  | halt, _ => halt
  | send buf next, f => send buf fun n => (next n).bind f
  | recv size next, f => recv size fun n bytes => (next n bytes).bind f

instance : Monad (Io β) where
  pure := done
  bind := bind

@[simp] theorem pure_eq (a : α) : (pure a : Io β α) = done a := rfl

@[simp] theorem done_bind (a : α) (f : α → Io β γ) : done a >>= f = f a := rfl

@[simp] theorem halt_bind (f : α → Io β γ) : (halt : Io β α) >>= f = halt := rfl

@[simp] theorem send_bind (buf : List β) (next : Int → Io β α) (f : α → Io β γ) :
    send buf next >>= f = send buf fun n => next n >>= f := rfl

@[simp] theorem recv_bind (size : Nat) (next : Int → List β → Io β α) (f : α → Io β γ) :
    recv size next >>= f = recv size fun n bytes => next n bytes >>= f := rfl

/-- The first call of a program. -/
@[simp] def call : Io β α → Call β (Io β α)
  | done _ => .idle
  | halt => .halted
  | send buf next => .send buf next
  | recv size next => .recv size next

/-- A program as a party; `loop` says what it does after it has returned. -/
def act (loop : α → Call β (Io β α)) : Io β α → Call β (Io β α)
  | done a => loop a
  | halt => .halted
  | send buf next => .send buf next
  | recv size next => .recv size next

end Io

/-! ## Steps -/

namespace Call

variable {β σ : Type}

def isHalted : Call β σ → Bool
  | halted => true
  | _ => false

/-- One call: the next state of the party, what is left to read and what is sent.
A call moves at least one element, unless the peer has ended and nothing is left. -/
inductive Performs : Call β σ → List β → Bool → σ → List β → List β → Prop
  | send {buf inbox : List β} {next : Int → σ} {closed : Bool} {k : Nat} (hpos : 0 < k)
      (hk : k ≤ buf.length) : Performs (.send buf next) inbox closed (next k) inbox (buf.take k)
  | recv {size : Nat} {inbox : List β} {next : Int → List β → σ} {closed : Bool} {k : Nat}
      (hpos : 0 < k) (hsize : k ≤ size) (hk : k ≤ inbox.length) :
      Performs (.recv size next) inbox closed (next k (inbox.take k)) (inbox.drop k) []
  | closed {size : Nat} {next : Int → List β → σ} :
      Performs (.recv size next) [] true (next 0 []) [] []

/-- A run of calls of one party. -/
inductive Runs (act : σ → Call β σ) (closed : Bool) : σ → List β → σ → List β → List β → Prop
  | single {x y : σ} {inbox inbox' sent : List β}
      (h : (act x).Performs inbox closed y inbox' sent) : Runs act closed x inbox y inbox' sent
  | head {x y z : σ} {inbox inbox' inbox'' sent more : List β}
      (h : (act x).Performs inbox closed y inbox' sent)
      (hrest : Runs act closed y inbox' z inbox'' more) :
      Runs act closed x inbox z inbox'' (sent ++ more)

end Call

/-- One call of either party. -/
inductive CallStep {β σ τ : Type} (callL : σ → Call β σ) (callR : τ → Call β τ) :
    Session β σ τ → Session β σ τ → Prop
  | left {s : Session β σ τ} {x : σ} {inbox sent : List β}
      (h : (callL s.left).Performs s.toLeft (callR s.right).isHalted x inbox sent) :
      CallStep callL callR s ⟨x, s.right, inbox, s.toRight ++ sent⟩
  | right {s : Session β σ τ} {y : τ} {inbox sent : List β}
      (h : (callR s.right).Performs s.toRight (callL s.left).isHalted y inbox sent) :
      CallStep callL callR s ⟨s.left, y, s.toLeft ++ sent, inbox⟩

section Runs

variable {β σ τ : Type} {callL : σ → Call β σ} {callR : τ → Call β τ} {inbox inbox' sent : List β}

/-- The left party alone. -/
theorem Call.Runs.left {x x' : σ} {y : τ}
    (h : Runs callL (callR y).isHalted x inbox x' inbox' sent) (out : List β) :
    TransGen (CallStep callL callR) ⟨x, y, inbox, out⟩ ⟨x', y, inbox', out ++ sent⟩ := by
  induction h generalizing out with
  | single h => exact .single (.left h)
  | head h _ ih =>
    rw [← List.append_assoc]
    exact .head (.left h) (ih _)

/-- The right party alone. -/
theorem Call.Runs.right {x : σ} {y y' : τ}
    (h : Runs callR (callL x).isHalted y inbox y' inbox' sent) (out : List β) :
    TransGen (CallStep callL callR) ⟨x, y, out, inbox⟩ ⟨x, y', out ++ sent, inbox'⟩ := by
  induction h generalizing out with
  | single h => exact .single (.right h)
  | head h _ ih =>
    rw [← List.append_assoc]
    exact .head (.right h) (ih _)

end Runs

/-! ## Writing and reading -/

section Moves

variable {β α γ : Type}

/-- The program sends exactly these elements and goes on as `y`. -/
inductive Writes (y : Io β α) : List β → Io β α → Prop
  | done : Writes y [] y
  | send {bytes buf : List β} {next : Int → Io β α} (hne : buf ≠ []) (hbuf : buf <+: bytes)
      (hnext : ∀ k : Nat, 0 < k → k ≤ buf.length → Writes y (bytes.drop k) (next k)) :
      Writes y bytes (.send buf next)

/-- When these are the next elements, the program receives exactly them and goes on
as `y`. -/
inductive Reads (y : Io β α) : List β → Io β α → Prop
  | done : Reads y [] y
  | recv {bytes : List β} {size : Nat} {next : Int → List β → Io β α} (hpos : 0 < size)
      (hsize : size ≤ bytes.length)
      (hnext : ∀ k : Nat, 0 < k → k ≤ size → Reads y (bytes.drop k) (next k (bytes.take k))) :
      Reads y bytes (.recv size next)

/-- The program receives first, and goes on as `y` when the stream has ended. -/
def AtEnd (y x : Io β α) : Prop := ∃ size next, x = .recv size next ∧ next 0 [] = y

variable {y x : Io β α} {bytes more pending : List β}

theorem AtEnd.bind (h : AtEnd y x) (f : α → Io β γ) : AtEnd (y >>= f) (x >>= f) := by
  obtain ⟨size, next, rfl, hend⟩ := h
  exact ⟨size, _, rfl, congrArg (· >>= f) hend⟩

theorem Writes.bind (h : Writes y bytes x) (f : α → Io β γ) :
    Writes (y >>= f) bytes (x >>= f) := by
  induction h with
  | done => exact .done
  | send hne hbuf _ ih => exact .send hne hbuf ih

theorem Reads.bind (h : Reads y bytes x) (f : α → Io β γ) : Reads (y >>= f) bytes (x >>= f) := by
  induction h with
  | done => exact .done
  | recv hpos hsize _ ih => exact .recv hpos hsize ih

/-- One after the other. -/
theorem Writes.trans {z : Io β α} (h : Writes y bytes x) (hmore : Writes z more y) :
    Writes z (bytes ++ more) x := by
  induction h with
  | done => exact hmore
  | @send bytes buf next hne hbuf _ ih =>
    refine .send hne (hbuf.trans (List.prefix_append bytes more)) fun k hpos hk => ?_
    have hle : k ≤ bytes.length := Nat.le_trans hk hbuf.length_le
    rw [List.drop_append_of_le_length hle]
    exact ih k hpos hk

theorem Reads.trans {z : Io β α} (h : Reads y bytes x) (hmore : Reads z more y) :
    Reads z (bytes ++ more) x := by
  induction h with
  | done => exact hmore
  | @recv bytes size next hpos hsize _ ih =>
    refine .recv hpos (by rw [List.length_append]; omega) fun k hk hle => ?_
    rw [List.drop_append_of_le_length (by omega), List.take_append_of_le_length (by omega)]
    exact ih k hk hle

theorem Writes.eq_of_nil (h : Writes y [] x) : x = y := by
  cases h with
  | done => rfl
  | send hne hbuf => exact absurd (List.prefix_nil.mp hbuf) hne

theorem Reads.eq_of_nil (h : Reads y [] x) : x = y := by
  cases h with
  | done => rfl
  | recv hpos hsize => exact absurd hsize (Nat.not_le.mpr hpos)

/-- A program with something left to write is at a call. -/
theorem Writes.act_eq (h : Writes y bytes x) (hne : bytes ≠ []) (loop : α → Call β (Io β α)) :
    x.act loop = x.call := by
  cases h with
  | done => exact absurd rfl hne
  | send => rfl

theorem Reads.act_eq (h : Reads y bytes x) (hne : bytes ≠ []) (loop : α → Call β (Io β α)) :
    x.act loop = x.call := by
  cases h with
  | done => exact absurd rfl hne
  | recv => rfl

variable {x' : Io β α} {inbox inbox' sent : List β} {closed : Bool}

/-- A call of a program that writes sends a first part of what is left. -/
theorem Writes.performs (h : Writes y bytes x) (hne : bytes ≠ [])
    (hcall : x.call.Performs inbox closed x' inbox' sent) :
    inbox' = inbox ∧ sent ≠ [] ∧ ∃ rest, sent ++ rest = bytes ∧ Writes y rest x' := by
  cases h with
  | done => exact absurd rfl hne
  | @send _ buf next hbufne hbuf hnext =>
    cases hcall with
    | @send _ _ _ _ k hpos hk =>
      have htake : buf.take k = bytes.take k := by
        rw [List.prefix_iff_eq_take.mp hbuf, List.take_take, Nat.min_eq_left hk]
      refine ⟨rfl, ?_, bytes.drop k, ?_, hnext k hpos hk⟩
      · rw [Ne, List.take_eq_nil_iff]
        rintro (hzero | hnil)
        · omega
        · exact hbufne hnil
      · rw [htake, List.take_append_drop]

/-- A call of a program that reads takes a first part of what is expected, when the
stream brings it. -/
theorem Reads.performs (h : Reads y bytes x) (hne : bytes ≠ [])
    (hcall : x.call.Performs inbox closed x' inbox' sent)
    (hstream : inbox ++ pending = bytes ++ more) :
    sent = [] ∧
      ((∃ got rem, got ≠ [] ∧ got ++ rem = bytes ∧ got ++ inbox' = inbox ∧ Reads y rem x') ∨
        inbox = [] ∧ closed = true) := by
  cases h with
  | done => exact absurd rfl hne
  | @recv _ size next hpos hsize hnext =>
    cases hcall with
    | @recv _ _ _ _ k hk hle hinbox =>
      have htake : inbox.take k = bytes.take k := by
        have hfirst := congrArg (List.take k) hstream
        rwa [List.take_append_of_le_length hinbox,
          List.take_append_of_le_length (Nat.le_trans hle hsize)] at hfirst
      refine ⟨rfl, .inl ⟨inbox.take k, bytes.drop k, ?_, ?_, List.take_append_drop k inbox, ?_⟩⟩
      · rw [Ne, List.take_eq_nil_iff]
        rintro (hzero | rfl)
        · omega
        · rw [List.length_nil] at hinbox
          omega
      · rw [htake, List.take_append_drop]
      · rw [htake]
        exact hnext k hk hle
    | closed => exact ⟨rfl, .inr ⟨rfl, rfl⟩⟩

theorem Writes.not_halted (h : Writes y bytes x) (hne : bytes ≠ []) : x.call.isHalted = false := by
  cases h with
  | done => exact absurd rfl hne
  | send => rfl

theorem Reads.not_halted (h : Reads y bytes x) (hne : bytes ≠ []) : x.call.isHalted = false := by
  cases h with
  | done => exact absurd rfl hne
  | recv => rfl

theorem Writes.ne_done (h : Writes y bytes x) (hne : bytes ≠ []) (a : α) : x ≠ .done a := by
  cases h with
  | done => exact absurd rfl hne
  | send => exact nofun

theorem Reads.ne_done (h : Reads y bytes x) (hne : bytes ≠ []) (a : α) : x ≠ .done a := by
  cases h with
  | done => exact absurd rfl hne
  | recv => exact nofun

/-- A program with something left to write can make a call. -/
theorem Writes.enabled (h : Writes y bytes x) (hne : bytes ≠ []) (inbox : List β)
    (closed : Bool) : ∃ x' inbox' sent, x.call.Performs inbox closed x' inbox' sent := by
  cases h with
  | done => exact absurd rfl hne
  | send hbufne => exact ⟨_, _, _, .send Nat.one_pos (List.length_pos_iff.mpr hbufne)⟩

theorem Reads.enabled (h : Reads y bytes x) (hne : bytes ≠ []) (hinbox : inbox ≠ [])
    (closed : Bool) : ∃ x' inbox' sent, x.call.Performs inbox closed x' inbox' sent := by
  cases h with
  | done => exact absurd rfl hne
  | recv hpos => exact ⟨_, _, _, .recv Nat.one_pos hpos (List.length_pos_iff.mpr hinbox)⟩

/-- The whole of it, in calls that move as much as they are asked for. -/
theorem Writes.runs (h : Writes y bytes x) (hne : bytes ≠ []) {loop : α → Call β (Io β α)}
    {z : Io β α} (hz : z.act loop = x.call) (inbox : List β) (closed : Bool) :
    Call.Runs (Io.act loop) closed z inbox y inbox bytes := by
  induction h generalizing z with
  | done => exact absurd rfl hne
  | @send bytes buf next hbuf hprefix hnext ih =>
    obtain ⟨more, rfl⟩ := hprefix
    have hpos := List.length_pos_iff.mpr hbuf
    have hcall : (z.act loop).Performs inbox closed (next buf.length) inbox
        (buf.take buf.length) := hz ▸ .send hpos (Nat.le_refl _)
    have hrest := hnext buf.length hpos (Nat.le_refl _)
    replace ih := ih buf.length hpos (Nat.le_refl _)
    rw [List.take_length] at hcall
    rw [List.drop_left] at hrest ih
    by_cases hmore : more = []
    · subst hmore
      rw [hrest.eq_of_nil] at hcall
      rw [List.append_nil]
      exact .single hcall
    · exact .head hcall (ih hmore (hrest.act_eq hmore loop))

theorem Reads.runs (h : Reads y bytes x) (hne : bytes ≠ []) {loop : α → Call β (Io β α)}
    {z : Io β α} (hz : z.act loop = x.call) (inbox : List β) (closed : Bool) :
    Call.Runs (Io.act loop) closed z (bytes ++ inbox) y inbox [] := by
  induction h generalizing z with
  | done => exact absurd rfl hne
  | @recv bytes size next hpos hsize hnext ih =>
    have hfits : size ≤ (bytes ++ inbox).length := by
      rw [List.length_append]
      omega
    have hcall : (z.act loop).Performs (bytes ++ inbox) closed
        (next size ((bytes ++ inbox).take size)) ((bytes ++ inbox).drop size) [] :=
      hz ▸ .recv hpos (Nat.le_refl _) hfits
    have hrest := hnext size hpos (Nat.le_refl _)
    replace ih := ih size hpos (Nat.le_refl _)
    rw [List.take_append_of_le_length hsize, List.drop_append_of_le_length hsize] at hcall
    by_cases hmore : bytes.drop size = []
    · rw [hmore] at hrest hcall
      rw [hrest.eq_of_nil] at hcall
      exact .single hcall
    · exact .head hcall (ih hmore (hrest.act_eq hmore loop))

end Moves

/-! ## Messages -/

/-- How messages are written and read. -/
structure Codec (β μ : Type) where
  encode : μ → List β
  write : μ → Io β Bool
  read : Io β (Option μ)

namespace Codec

variable {β μ α : Type} (cd : Codec β μ)

/-- The program with its messages written and read on the stream. -/
def compile : Proc μ α → Io β α
  | .done a => .done a
  | .halt => .halt
  | .send m next => cd.write m >>= fun ok => compile (next ok)
  | .recv next => cd.read >>= fun m => compile (next m)

/-- What a party does next, on the stream. -/
def calls : Action μ (Proc μ α) → Call β (Io β α)
  | .idle => .idle
  | .halted => .halted
  | .send m next => (cd.write m >>= fun _ => cd.compile next).call
  | .recv next => (cd.read >>= fun m => cd.compile (next m)).call

/-- A compiled program as a party. -/
def party (loop : α → Action μ (Proc μ α)) : Io β α → Call β (Io β α) :=
  Io.act fun a => cd.calls (loop a)

/-- The messages of `P` are written and read as they are encoded, and a reader
notices that the stream has ended. -/
structure Sound (P : μ → Prop) : Prop where
  writes : ∀ {m}, P m → Writes (.done true) (cd.encode m) (cd.write m)
  reads : ∀ {m}, P m → Reads (.done (some m)) (cd.encode m) cd.read
  ends : AtEnd (.done none) cd.read

/-- The elements of a queue of messages. -/
def stream (queue : List μ) : List β := queue.flatMap cd.encode

@[simp] theorem stream_nil : cd.stream [] = [] := rfl

@[simp] theorem stream_cons (m : μ) (queue : List μ) :
    cd.stream (m :: queue) = cd.encode m ++ cd.stream queue := rfl

@[simp] theorem stream_append (queue more : List μ) :
    cd.stream (queue ++ more) = cd.stream queue ++ cd.stream more := List.flatMap_append

/-- The session on the stream between two messages. -/
def clean {γ : Type} (u : Session μ (Proc μ α) (Proc μ γ)) : Session β (Io β α) (Io β γ) :=
  ⟨cd.compile u.left, cd.compile u.right, cd.stream u.toLeft, cd.stream u.toRight⟩

end Codec

end NetLabs.Lib
