import NetLabs.Ftp.Exchange

/-!
# Client and server in step

A run starts with the client at its prompt and the server in its event loop.
In it the two sides take steps in any order, and a command can be issued
whenever the client is at its prompt, also while the server is still busy with
the command before.

* `Settles` is what "in step" means in one state: without a further command no
  run is infinite, and every run ends with the client at its prompt, nothing
  unread in either direction, and the server in its event loop after one
  iteration for each command.
* `in_step_iff` says exactly when all states of all runs of a list of commands
  settle.
-/

namespace NetLabs.Ftp

open Lib Relation

variable (world : Nat → Os) (fd : Int)

/-- The runs from `start` and the commands issued in them. -/
inductive Run (start : FtpSession) : List Issue → FtpSession → Prop
  | start : Run start [] start
  | step {cs : List Issue} {u v : FtpSession} (hrun : Run start cs u)
      (hstep : FtpStep world fd u v) : Run start cs v
  | issue {cs : List Issue} {u : FtpSession} {r : Returned} (c : Issue)
      (hrun : Run start cs u) (hprompt : u.left = .done r) : Run start (cs ++ [c]) (u.issue c)

/-- Left alone, the session settles after iteration `n`. -/
structure Settles (n : Nat) (u : FtpSession) : Prop where
  ends : Acc (fun v u => FtpStep world fd u v) u
  settled : ∀ v, ReflTransGen (FtpStep world fd) u v → Stuck (FtpStep world fd) v →
    ∃ r s, v = .settled r n s

/-- All states in all runs of the commands, and of the first few of them,
settle. -/
def InStep (r : Returned) (k : Nat) (s : Server) (cs : List Issue) : Prop :=
  ∀ pre, pre <+: cs → ∀ u, Run world fd (.settled r k s) pre u →
    Settles world fd (k + pre.length) u

/-- Each command is answered, in the state that the ones before it lead to. -/
def AllAnswered : Nat → Server → List Issue → Prop
  | _, _, [] => True
  | k, s, c :: cs =>
    c.Answered (world k) fd s ∧ AllAnswered (k + 1) (c.after (world k) fd s) cs

/-- The server after it has answered all commands. -/
def afterAll : Nat → Server → List Issue → Server
  | _, s, [] => s
  | k, s, c :: cs => afterAll (k + 1) (c.after (world k) fd s) cs

variable {world fd}

theorem allAnswered_append {k : Nat} {s : Server} {cs : List Issue} {c : Issue} :
    AllAnswered world fd k s (cs ++ [c]) ↔ AllAnswered world fd k s cs ∧
      c.Answered (world (k + cs.length)) fd (afterAll world fd k s cs) := by
  induction cs generalizing k s with
  | nil => simp [AllAnswered, afterAll]
  | cons d cs ih =>
    have hindex : k + 1 + cs.length = k + (cs.length + 1) := by omega
    simp only [List.cons_append, AllAnswered, afterAll, List.length_cons, ih, and_assoc, hindex]

theorem allAnswered_of_prefix {k : Nat} {s : Server} {pre cs : List Issue} (hpre : pre <+: cs)
    (h : AllAnswered world fd k s cs) : AllAnswered world fd k s pre := by
  induction pre generalizing k s cs with
  | nil => trivial
  | cons c pre ih =>
    cases cs with
    | nil => simp at hpre
    | cons d cs =>
      have ⟨heq, hpre'⟩ := List.cons_prefix_cons.mp hpre
      subst heq
      exact ⟨h.1, ih hpre' h.2⟩

theorem afterAll_append {k : Nat} {s : Server} {cs : List Issue} {c : Issue} :
    afterAll world fd k s (cs ++ [c]) =
      c.after (world (k + cs.length)) fd (afterAll world fd k s cs) := by
  induction cs generalizing k s with
  | nil => rfl
  | cons d cs ih =>
    have hindex : k + 1 + cs.length = k + (cs.length + 1) := by omega
    simp only [List.cons_append, afterAll, List.length_cons, ih, hindex]

/-! ## Settling -/

theorem stuck_settled (r : Returned) (n : Nat) (s : Server) :
    Stuck (FtpStep world fd) (.settled r n s) :=
  Session.stuck_of_perform rfl rfl

/-- One run that settles is enough. -/
theorem Settles.of_reaches {u : FtpSession} {r : Returned} {n : Nat} {s : Server}
    (h : ReflTransGen (FtpStep world fd) u (.settled r n s)) : Settles world fd n u where
  ends := Session.step_diamond.acc (stuck_settled r n s) h
  settled _ hv hstuck := ⟨r, s, Session.step_diamond.stuck_unique (stuck_settled r n s) h hv hstuck⟩

/-- A run of a session that settles. -/
theorem Settles.forward {n : Nat} {u v : FtpSession} (h : Settles world fd n u)
    (huv : ReflTransGen (FtpStep world fd) u v) : Settles world fd n v where
  ends := by
    induction huv with
    | refl => exact h.ends
    | tail _ hstep ih => exact ih.inv hstep
  settled w hw := h.settled w (huv.trans hw)

/-- Two sides out of step do not settle. -/
theorem not_settles {u : FtpSession} {e : Proc Post Returned × Proc Post (Nat × Server)}
    (hreach : ReflTransGen (FtpStep world fd) u ⟨e.1, e.2, [], []⟩) (he : OutOfStep e)
    (n : Nat) : ¬ Settles world fd n u := by
  intro hsettles
  replace hsettles := hsettles.forward hreach
  rcases he with ⟨r, next, rfl⟩ | ⟨next, i, rfl⟩ | hhalt
  · have ⟨_, _, heq⟩ := hsettles.settled _ .refl (Session.stuck_of_perform rfl rfl)
    cases congrArg Session.right heq
  · have ⟨_, _, heq⟩ := hsettles.settled _ .refl (Session.stuck_of_perform rfl rfl)
    cases congrArg Session.left heq
  · -- the server stays down in the state that the run gets stuck in
    have ⟨z, hz, hstuck⟩ := exists_stuck hsettles.ends
    have ⟨r, s, heq⟩ := hsettles.settled z hz hstuck
    have hright := Session.right_of_halted hz (by rw [hhalt]; rfl)
    rw [heq, hhalt] at hright
    cases hright

/-! ## Runs -/

theorem run_not_halted (c : Issue) : ((Proc.act clientLoop) c.run).isHalted = false := by
  have ⟨next, _, hrun, _⟩ := run_eq c
  rw [hrun]
  rfl

/-- One answered command. -/
theorem reaches_of_answered {c : Issue} {k : Nat} {s : Server}
    (h : c.Answered (world k) fd s) (r : Returned) :
    ∃ r', ReflTransGen (FtpStep world fd) ((FtpSession.settled r k s).issue c)
      (.settled r' (k + 1) (c.after (world k) fd s)) := by
  have ⟨r', hexchange⟩ := exchange_of_answered h
  have hreach : ReflTransGen (FtpStep world fd) ((FtpSession.settled r k s).issue c) _ :=
    reaches_exchange c r k s
  rw [hexchange] at hreach
  exact ⟨r', hreach⟩

/-- Every state in a run of answered commands leads to the state in which all
of them have been answered. -/
theorem Run.reaches {r : Returned} {k : Nat} {s : Server} {cs : List Issue} {u : FtpSession}
    (hrun : Run world fd (.settled r k s) cs u) (hall : AllAnswered world fd k s cs) :
    ∃ r', ReflTransGen (FtpStep world fd) u
      (.settled r' (k + cs.length) (afterAll world fd k s cs)) := by
  induction hrun with
  | start => exact ⟨r, .refl⟩
  | step _ hstep ih =>
    have ⟨r', hreach⟩ := ih hall
    exact ⟨r', Session.step_diamond.reaches (stuck_settled _ _ _) hreach (.single hstep)⟩
  | @issue cs u _ c _ hprompt ih =>
    have ⟨hprev, hanswered⟩ := allAnswered_append.mp hall
    have ⟨r₁, hsettle⟩ := ih hprev
    -- the server finishes the command before while the client starts on this one
    have hidle : (Proc.act clientLoop) u.left = .idle := by
      rw [hprompt]
      rfl
    have ⟨_, hreplay⟩ := Session.replay_left hsettle hidle (run_not_halted c)
    have ⟨r₂, hanswer⟩ := reaches_of_answered hanswered r₁
    refine ⟨r₂, ?_⟩
    rw [afterAll_append, List.length_append, List.length_singleton, ← Nat.add_assoc]
    exact hreplay.trans hanswer

/-- A command in front of a run. -/
theorem Run.cons {start start' : FtpSession} {r : Returned} {c : Issue}
    (hprompt : start.left = .done r)
    (hreach : ReflTransGen (FtpStep world fd) (start.issue c) start') {cs : List Issue}
    {u : FtpSession} (hrun : Run world fd start' cs u) : Run world fd start (c :: cs) u := by
  induction hrun with
  | start =>
    have hfirst : Run world fd start [c] (start.issue c) := .issue c .start hprompt
    clear hprompt
    induction hreach with
    | refl => exact hfirst
    | tail _ hstep ih => exact .step ih hstep
  | step _ hstep ih => exact .step ih hstep
  | issue d _ hprompt' ih => exact .issue d ih hprompt'

/-- A first command that is not answered. -/
theorem not_inStep_of_first {c : Issue} {k : Nat} {s : Server}
    (h : ¬ c.Answered (world k) fd s) (r : Returned) (cs : List Issue) :
    ¬ InStep world fd r k s (c :: cs) := by
  intro hstep
  have hissue : Run world fd (.settled r k s) [c] ((FtpSession.settled r k s).issue c) :=
    .issue c .start rfl
  have hsettles := hstep [c] ⟨cs, rfl⟩ _ hissue
  exact not_settles (reaches_exchange c r k s) (exchange_of_not_answered h) _ hsettles

/-- **Client and server stay in step exactly when every command is answered.** -/
theorem in_step_iff (world : Nat → Os) (fd : Int) (r : Returned) (k : Nat) (s : Server)
    (cs : List Issue) : InStep world fd r k s cs ↔ AllAnswered world fd k s cs := by
  constructor
  · intro h
    induction cs generalizing r k s with
    | nil => trivial
    | cons c cs ih =>
      have hanswered : c.Answered (world k) fd s := by
        by_contra hnot
        exact not_inStep_of_first hnot r cs h
      have ⟨r', hreach⟩ := reaches_of_answered hanswered r
      refine ⟨hanswered, ih r' (k + 1) _ ?_⟩
      intro pre hpre u hu
      have hsettles := h (c :: pre) ((List.prefix_cons_inj c).mpr hpre) u (hu.cons rfl hreach)
      have hindex : k + (c :: pre).length = k + 1 + pre.length := by
        rw [List.length_cons]
        omega
      rw [hindex] at hsettles
      exact hsettles
  · intro h pre hpre u hu
    have hprefix : AllAnswered world fd k s pre := allAnswered_of_prefix hpre h
    have ⟨r', hreach⟩ := hu.reaches hprefix
    exact .of_reaches hreach

/-! ## A local file that cannot be read -/

/-- A system with the one directory `/srv`, on which every other call works. -/
def plainOs : Os where
  fsExists _ path := some (path = literal "/srv")
  fsCanonical _ path := some path
  chdir _ path := some path
  popen _ _ := some []
  openRead _ _ := some ⟨0, []⟩
  openWrite _ _ := some ⟨maxbuf⟩
  epollDel _ := true
  close _ := true
  stale _ := 0

/-- The server after the client on descriptor 5 has opened its session. -/
def openedServer : Server :=
  ⟨literal "/srv", literal "/srv", fun _ => literal "/srv", [3, 5], []⟩

/-- A `get` of a file that does not exist, and then `ls`. -/
example : AllAnswered (fun _ => plainOs) 5 0 openedServer
    [⟨.get (literal "a"), ⟨fun _ => none, fun _ => none, fun _ => 0⟩⟩,
      ⟨.ls, ⟨fun _ => none, fun _ => none, fun _ => 0⟩⟩] :=
  ⟨⟨literal "/srv", rfl, .inl rfl⟩, ⟨literal "/srv", rfl, [], rfl, by decide⟩, trivial⟩

/-- `put a` where the client has no file `a`: the server waits for the file. -/
theorem put_missing_out_of_step :
    ¬ InStep (fun _ => plainOs) 5 ⟨0, none, []⟩ 0 openedServer
      [⟨.put (literal "a"), ⟨fun _ => none, fun _ => none, fun _ => 0⟩⟩] := by
  refine not_inStep_of_first ?_ _ _
  intro ⟨dir, _, file, hfile, _⟩
  cases hfile

end NetLabs.Ftp
