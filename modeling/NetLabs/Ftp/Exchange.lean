import NetLabs.Ftp.Client
import NetLabs.Ftp.Server

/-!
# One command and its answer

The session of one client and the server, and what becomes of one command
issued while the server is in its event loop and nothing is on its way.

* `Answered` is the condition under which the server answers the command
  completely and the client sends all that the server waits for.
* `exchange` is where the two programs get in lockstep.  Under the condition
  both return (`exchange_of_answered`), otherwise they are out of step
  (`exchange_of_not_answered`).
-/

namespace NetLabs.Ftp

open Lib Relation

/-! ## The session -/

/-- The client, the server with the number of iterations it has made, and the
posts on their way. -/
abbrev FtpSession := Session Post (Proc Post Returned) (Proc Post (Nat × Server))

/-- The client waits for the next command line when a command has returned. -/
def clientLoop (_ : Returned) : Action Post (Proc Post Returned) := .idle

/-- The body of the event loop; iteration `k` runs on `world k`. -/
def serverBody (world : Nat → Os) (fd : Int) (k : Nat) (s : Server) (req : Option Post) :
    Proc Post (Nat × Server) := do
  let s ← Server.serve (world k) fd req s
  return (k + 1, s)

def serverLoop (world : Nat → Os) (fd : Int) (i : Nat × Server) :
    Action Post (Proc Post (Nat × Server)) :=
  .recv (serverBody world fd i.1 i.2)

/-- One step of either side, in any order. -/
abbrev FtpStep (world : Nat → Os) (fd : Int) : FtpSession → FtpSession → Prop :=
  Session.Step (Proc.act clientLoop) (Proc.act (serverLoop world fd))

/-- The client is at its prompt, the server in its event loop after `k`
iterations, and nothing is on its way. -/
def FtpSession.settled (r : Returned) (k : Nat) (s : Server) : FtpSession :=
  ⟨.done r, .done (k, s), [], []⟩

/-- A command with what its system calls return. -/
structure Issue where
  command : Command
  os : ClientOs

/-- A connected client starts on a command. -/
@[simp] def Issue.run (c : Issue) : Proc Post Returned := c.command.run true c.os

def FtpSession.issue (u : FtpSession) (c : Issue) : FtpSession := { u with left := c.run }

/-! ## When a command is answered -/

/-- The directory that the handler of the next request runs in.  `none` when
the event loop drops the request or `fs::exists` throws. -/
def Server.handlerDir (os : Os) (fd : Int) (s : Server) : Option Path :=
  match os.fsExists s.cwd (s.cwds (fd2ind fd)) with
  | none => none
  | some false => some s.cwd
  | some true => os.chdir s.cwd (s.cwds (fd2ind fd))

/-- A command line runs, and its output and terminator fit the buffer. -/
def Os.Runs (os : Os) (dir : Path) (cmd : List UInt8) : Prop :=
  ∃ output, os.popen dir cmd = some output ∧ output.length < maxbuf

/-- The path has a canonical form, and `sha256sum` of that runs. -/
def Os.ShaRuns (os : Os) (dir path : Path) : Prop :=
  ∃ p, os.fsCanonical dir path = some p ∧
    (Server.shaCommand p).length < maxbuf ∧ os.Runs dir (Server.shaCommand p)

/-- `fs::exists` gives an answer, and if it is yes then `P` holds. -/
def Os.ExistsThen (os : Os) (dir path : Path) (P : Prop) : Prop :=
  os.fsExists dir path = some false ∨ os.fsExists dir path = some true ∧ P

/-- Nothing goes wrong between the two sides once the handler runs in `dir`. -/
def Issue.Replies (c : Issue) (os : Os) (dir : Path) : Prop :=
  match c.command with
  | .ls => os.Runs dir (literal "ls")
  | .cd args => os.ExistsThen dir (cString args) (os.fsCanonical dir (cString args) ≠ none)
  | .get args => os.ExistsThen dir (cString args) (Readable (os.openRead dir (cString args)))
  | .put args => Readable (c.os.openRead (cString args))
  | .sha args => os.ExistsThen dir (cString args) (os.ShaRuns dir (cString args))

/-- The request reaches its handler and nothing goes wrong there. -/
def Issue.Answered (c : Issue) (os : Os) (fd : Int) (s : Server) : Prop :=
  ∃ dir, s.handlerDir os fd = some dir ∧ c.Replies os dir

/-- What the handler does to the server's state. -/
def Issue.handled (c : Issue) (os : Os) (fd : Int) (s : Server) : Server :=
  match c.command with
  | .cd args =>
    match os.fsExists s.cwd (cString args), os.fsCanonical s.cwd (cString args) with
    | some true, some dir => s.setCwds fd dir
    | _, _ => s
  | .put args =>
    let buf := (readFile (c.os.openRead (cString args)) c.os.stale maxbuf).2
    match (writeFile (os.openWrite s.cwd (cString args)) buf).2 with
    | none => s
    | some content => { s with written := (s.cwd, cString args, content) :: s.written }
  | _ => s

/-- The server after it has answered. -/
def Issue.after (c : Issue) (os : Os) (fd : Int) (s : Server) : Server :=
  let dir := (s.handlerDir os fd).getD s.cwd
  Server.leave os (c.handled os fd { s with cwd := dir })

/-! ## Lockstep -/

/-- The request that a command starts with. -/
def Command.request : Command → Post
  | ls => ⟨listRequest, 0, []⟩
  | cd args => ⟨cdRequest, 0, Client.argument args⟩
  | get args => ⟨getRequest, 0, Client.argument args⟩
  | put args => ⟨putRequest, 0, Client.argument args⟩
  | sha args => ⟨shaRequest, 0, Client.argument args⟩

/-- The argument of a command; `ls` has none. -/
@[simp] def Command.args : Command → List UInt8
  | ls => []
  | cd args | get args | put args | sha args => args

/-- The place of the handler in the server's table. -/
def Command.index : Command → Nat
  | ls => 1
  | cd _ => 2
  | get _ => 3
  | put _ => 4
  | sha _ => 5

@[simp] def Command.func (os : Os) : Command → Server.Handler
  | ls => Server.doLs os
  | cd _ => Server.doCd os
  | get _ => Server.doGet os
  | put _ => Server.doPut os
  | sha _ => Server.doSha os

/-- The handler of a command and the end of the iteration. -/
def handle (os : Os) (fd : Int) (c : Command) (k : Nat) (s : Server) :
    Proc Post (Nat × Server) := do
  let (_, s) ← c.func os fd (cString c.args) s
  return (k + 1, Server.leave os s)

/-- Where the two programs get in lockstep. -/
def exchange (world : Nat → Os) (fd : Int) (c : Issue) (k : Nat) (s : Server) :
    Proc Post Returned × Proc Post (Nat × Server) :=
  c.run.sent.meet (serverBody world fd k s (some c.command.request))

/-- One side waits for a message that does not come, or the server is gone. -/
def OutOfStep (e : Proc Post Returned × Proc Post (Nat × Server)) : Prop :=
  (∃ r next, e = (.done r, .recv next)) ∨ (∃ next i, e = (.recv next, .done i)) ∨
    e.2 = .halt

variable {world : Nat → Os} {os : Os} {fd : Int}

/-! ## Up to the handler -/

theorem run_eq (c : Issue) :
    ∃ next next', c.run = .send c.command.request next ∧ next true = .recv next' := by
  cases hcommand : c.command <;> simp only [Issue.run, hcommand] <;> exact ⟨_, _, rfl, rfl⟩

/-- The session gets where lockstep gets. -/
theorem reaches_exchange (c : Issue) (r : Returned) (k : Nat) (s : Server) :
    ReflTransGen (FtpStep world fd) ((FtpSession.settled r k s).issue c)
      ⟨(exchange world fd c k s).1, (exchange world fd c k s).2, [], []⟩ := by
  have ⟨next, _, hrun, _⟩ := run_eq c
  have hrequest : ReflTransGen (FtpStep world fd) ((FtpSession.settled r k s).issue c)
      ⟨c.run.sent, serverBody world fd k s (some c.command.request), [], []⟩ := by
    rw [FtpSession.issue, hrun]
    exact reaches_request rfl
  exact hrequest.trans (reaches_meet _ _)

theorem serve_of_handlerDir {s : Server} {dir : Path} (h : s.handlerDir os fd = some dir)
    (req : Post) :
    Server.serve os fd (some req) s = Server.dispatch os fd req { s with cwd := dir } := by
  unfold Server.handlerDir at h
  unfold Server.serve
  cases hexists : os.fsExists s.cwd (s.cwds (fd2ind fd)) with
  | none =>
    rw [hexists] at h
    cases h
  | some found =>
    rw [hexists] at h
    cases found with
    | false =>
      cases h
      rfl
    | true =>
      simp only at h
      simp only [h]

theorem serve_of_no_handlerDir {s : Server} (h : s.handlerDir os fd = none) (req : Post) :
    Server.serve os fd (some req) s = .halt ∨ Server.serve os fd (some req) s = .done s := by
  unfold Server.handlerDir at h
  unfold Server.serve
  cases hexists : os.fsExists s.cwd (s.cwds (fd2ind fd)) with
  | none => exact .inl rfl
  | some found =>
    rw [hexists] at h
    cases found with
    | false => cases h
    | true =>
      simp only at h
      simp only [h]
      exact .inr rfl

theorem type2ind_request (c : Command) : type2ind c.request.type = c.index := by
  cases c with
  | ls => show type2ind listRequest = 1; decide
  | cd _ => show type2ind cdRequest = 2; decide
  | get _ => show type2ind getRequest = 3; decide
  | put _ => show type2ind putRequest = 4; decide
  | sha _ => show type2ind shaRequest = 5; decide

theorem handler_request (os : Os) (c : Command) :
    Server.handler os c.request.type = some (c.func os) := by
  rw [Server.handler, type2ind_request, if_neg (by omega)]
  cases c <;> rfl

theorem cString_request (c : Command) : cString c.request.payload = cString c.args := by
  cases c with
  | ls => rfl
  | cd args | get args | put args | sha args => exact cString_terminated args []

/-- A request that reaches its handler. -/
theorem serverBody_request {k : Nat} {s : Server} {dir : Path}
    (h : s.handlerDir (world k) fd = some dir) (c : Command) :
    serverBody world fd k s (some c.request) =
      handle (world k) fd c k { s with cwd := dir } := by
  rw [serverBody, serve_of_handlerDir h, Server.dispatch, handler_request, cString_request]
  exact Proc.bind_assoc _ _ _

/-! ## The handlers -/

section Handlers

variable {cos : ClientOs} {args : List UInt8} {k : Nat} {s : Server}

theorem Os.existsThen_cases {dir path : Path} {P : Prop} (h : ¬ os.ExistsThen dir path P) :
    os.fsExists dir path = none ∨ os.fsExists dir path = some true ∧ ¬ P := by
  rw [Os.ExistsThen, not_or, not_and] at h
  cases hexists : os.fsExists dir path with
  | none => exact .inl rfl
  | some found =>
    cases found with
    | false => exact absurd hexists h.1
    | true => exact .inr ⟨rfl, h.2 hexists⟩

/-- A command that does not run has no output or too much of it. -/
theorem Os.runs_cases {dir : Path} {cmd : List UInt8} (h : ¬ os.Runs dir cmd) :
    os.popen dir cmd = none ∨
      ∃ output, os.popen dir cmd = some output ∧ min output.length maxbuf = maxbuf := by
  cases hpopen : os.popen dir cmd with
  | none => exact .inl rfl
  | some output =>
    have hlong : ¬ output.length < maxbuf := fun hlt => h ⟨output, hpopen, hlt⟩
    exact .inr ⟨output, rfl, by omega⟩

theorem meet_ls (h : os.Runs s.cwd (literal "ls")) :
    ∃ r, (Issue.run ⟨.ls, cos⟩).sent.meet (handle os fd .ls k s) =
      (.done r, .done (k + 1, Server.leave os s)) := by
  have ⟨output, hpopen, hlength⟩ := h
  have hfits : ¬ min output.length maxbuf = maxbuf := by omega
  simp [Client.doLs, handle, Server.doLs, hpopen, hfits]

theorem outOfStep_ls (h : ¬ os.Runs s.cwd (literal "ls")) :
    OutOfStep ((Issue.run ⟨.ls, cos⟩).sent.meet (handle os fd .ls k s)) := by
  rcases Os.runs_cases h with hpopen | ⟨output, hpopen, hfits⟩
  · simp [Client.doLs, handle, Server.doLs, hpopen, OutOfStep]
  · simp [Client.doLs, handle, Server.doLs, hpopen, hfits, OutOfStep]

theorem meet_cd (h : os.ExistsThen s.cwd (cString args)
    (os.fsCanonical s.cwd (cString args) ≠ none)) :
    ∃ r, (Issue.run ⟨.cd args, cos⟩).sent.meet (handle os fd (.cd args) k s) =
      (.done r, .done (k + 1, Server.leave os (Issue.handled ⟨.cd args, cos⟩ os fd s))) := by
  rcases h with hexists | ⟨hexists, hcanonical⟩
  · simp [Client.doCd, handle, Server.doCd, Issue.handled, hexists]
  · have ⟨dir, hdir⟩ := Option.ne_none_iff_exists'.mp hcanonical
    simp [Client.doCd, handle, Server.doCd, Issue.handled, hexists, hdir]

theorem outOfStep_cd (h : ¬ os.ExistsThen s.cwd (cString args)
    (os.fsCanonical s.cwd (cString args) ≠ none)) :
    OutOfStep ((Issue.run ⟨.cd args, cos⟩).sent.meet (handle os fd (.cd args) k s)) := by
  rcases Os.existsThen_cases h with hexists | ⟨hexists, hcanonical⟩
  · simp [Client.doCd, handle, Server.doCd, hexists, OutOfStep]
  · simp [Client.doCd, handle, Server.doCd, hexists, not_not.mp hcanonical, OutOfStep]

theorem meet_get (h : os.ExistsThen s.cwd (cString args)
    (Readable (os.openRead s.cwd (cString args)))) :
    ∃ r, (Issue.run ⟨.get args, cos⟩).sent.meet (handle os fd (.get args) k s) =
      (.done r, .done (k + 1, Server.leave os s)) := by
  rcases h with hexists | ⟨hexists, hread⟩
  · simp [Client.doGet, handle, Server.doGet, hexists]
  · have hsize := (readFile_nonneg_iff os.stale maxbuf_nonneg).mpr hread
    simp [Client.doGet, handle, Server.doGet, hexists, hsize]

theorem outOfStep_get (h : ¬ os.ExistsThen s.cwd (cString args)
    (Readable (os.openRead s.cwd (cString args)))) :
    OutOfStep ((Issue.run ⟨.get args, cos⟩).sent.meet (handle os fd (.get args) k s)) := by
  rcases Os.existsThen_cases h with hexists | ⟨hexists, hread⟩
  · simp [Client.doGet, handle, Server.doGet, hexists, OutOfStep]
  · have hsize := not_not.mp (mt (readFile_nonneg_iff os.stale maxbuf_nonneg).mp hread)
    simp [Client.doGet, handle, Server.doGet, hexists, hsize, OutOfStep]

theorem meet_put (h : Readable (cos.openRead (cString args))) :
    ∃ r, (Issue.run ⟨.put args, cos⟩).sent.meet (handle os fd (.put args) k s) =
      (.done r, .done (k + 1, Server.leave os (Issue.handled ⟨.put args, cos⟩ os fd s))) := by
  have hsize := (readFile_nonneg_iff cos.stale maxbuf_nonneg).mpr h
  cases hwrite : os.openWrite s.cwd (cString args) <;>
    simp [Client.doPut, handle, Server.doPut, Issue.handled, hsize, hwrite, writeFile]

theorem outOfStep_put (h : ¬ Readable (cos.openRead (cString args))) :
    OutOfStep ((Issue.run ⟨.put args, cos⟩).sent.meet (handle os fd (.put args) k s)) := by
  have hsize := not_not.mp (mt (readFile_nonneg_iff cos.stale maxbuf_nonneg).mp h)
  simp [Client.doPut, handle, Server.doPut, hsize, OutOfStep]

theorem meet_sha (h : os.ExistsThen s.cwd (cString args) (os.ShaRuns s.cwd (cString args))) :
    ∃ r, (Issue.run ⟨.sha args, cos⟩).sent.meet (handle os fd (.sha args) k s) =
      (.done r, .done (k + 1, Server.leave os s)) := by
  rcases h with hexists | ⟨hexists, p, hcanonical, htext, output, hpopen, hlength⟩
  · simp [Client.doSha, handle, Server.doSha, hexists]
  · have htext' : ¬ maxbuf ≤ (Server.shaCommand p).length := by omega
    have hfits : ¬ min output.length maxbuf = maxbuf := by omega
    simp [Client.doSha, handle, Server.doSha, hexists, hcanonical, htext', hpopen, hfits]

theorem outOfStep_sha (h : ¬ os.ExistsThen s.cwd (cString args)
    (os.ShaRuns s.cwd (cString args))) :
    OutOfStep ((Issue.run ⟨.sha args, cos⟩).sent.meet (handle os fd (.sha args) k s)) := by
  rcases Os.existsThen_cases h with hexists | ⟨hexists, hruns⟩
  · simp [Client.doSha, handle, Server.doSha, hexists, OutOfStep]
  cases hcanonical : os.fsCanonical s.cwd (cString args) with
  | none =>
    simp [Client.doSha, handle, Server.doSha, hexists, hcanonical, OutOfStep]
  | some p =>
    by_cases htext : maxbuf ≤ (Server.shaCommand p).length
    · simp [Client.doSha, handle, Server.doSha, hexists, hcanonical, htext, OutOfStep]
    · have hnot : ¬ os.Runs s.cwd (Server.shaCommand p) := fun hruns' =>
        hruns ⟨p, hcanonical, by omega, hruns'⟩
      rcases Os.runs_cases hnot with hpopen | ⟨output, hpopen, hfits⟩
      · simp [Client.doSha, handle, Server.doSha, hexists, hcanonical, htext, hpopen, OutOfStep]
      · simp [Client.doSha, handle, Server.doSha, hexists, hcanonical, htext, hpopen, hfits,
          OutOfStep]

end Handlers

/-! ## One exchange -/

theorem meet_of_replies {c : Issue} {s : Server} (h : c.Replies os s.cwd) (fd : Int) (k : Nat) :
    ∃ r, c.run.sent.meet (handle os fd c.command k s) =
      (.done r, .done (k + 1, Server.leave os (c.handled os fd s))) := by
  obtain ⟨command, cos⟩ := c
  cases command with
  | ls => exact meet_ls h
  | cd args => exact meet_cd h
  | get args => exact meet_get h
  | put args => exact meet_put h
  | sha args => exact meet_sha h

theorem outOfStep_of_not_replies {c : Issue} {s : Server} (h : ¬ c.Replies os s.cwd) (k : Nat) :
    OutOfStep (c.run.sent.meet (handle os fd c.command k s)) := by
  obtain ⟨command, cos⟩ := c
  cases command with
  | ls => exact outOfStep_ls h
  | cd args => exact outOfStep_cd h
  | get args => exact outOfStep_get h
  | put args => exact outOfStep_put h
  | sha args => exact outOfStep_sha h

/-- An answered command returns, and the server is back in its event loop. -/
theorem exchange_of_answered {c : Issue} {k : Nat} {s : Server}
    (h : c.Answered (world k) fd s) :
    ∃ r, exchange world fd c k s = (.done r, .done (k + 1, c.after (world k) fd s)) := by
  have ⟨dir, hdir, hreplies⟩ := h
  have ⟨r, hmeet⟩ := meet_of_replies (s := { s with cwd := dir }) hreplies fd k
  refine ⟨r, ?_⟩
  rw [exchange, serverBody_request hdir, hmeet, Issue.after, hdir]
  rfl

/-- Every other command leaves the two sides out of step. -/
theorem exchange_of_not_answered {c : Issue} {k : Nat} {s : Server}
    (h : ¬ c.Answered (world k) fd s) : OutOfStep (exchange world fd c k s) := by
  cases hdir : s.handlerDir (world k) fd with
  | none =>
    have ⟨next, next', hrun, hnext⟩ := run_eq c
    have hsent : c.run.sent = .recv next' := by rw [hrun, Proc.sent, hnext]
    rcases serve_of_no_handlerDir hdir c.command.request with hserve | hserve
    · have hbody : serverBody world fd k s (some c.command.request) = .halt := by
        rw [serverBody, hserve]
        rfl
      rw [exchange, hsent, hbody]
      exact .inr (.inr rfl)
    · have hbody : serverBody world fd k s (some c.command.request) = .done (k + 1, s) := by
        rw [serverBody, hserve]
        rfl
      rw [exchange, hsent, hbody]
      exact .inr (.inl ⟨_, _, rfl⟩)
  | some dir =>
    have hreplies : ¬ c.Replies (world k) dir := fun hreplies => h ⟨dir, hdir, hreplies⟩
    rw [exchange, serverBody_request hdir]
    exact outOfStep_of_not_replies (s := { s with cwd := dir }) hreplies k

end NetLabs.Ftp
