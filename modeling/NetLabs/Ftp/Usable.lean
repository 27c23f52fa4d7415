import NetLabs.Ftp.Workdir

/-!
# Sessions that stay usable

`do_cd` accepts every path that exists.  The loop enters what `do_cd` has stored
only when the next request arrives, and drops the request when that fails.  A call
that throws on a path, or a handler that runs into the end of its buffer, ends the
process with all its sessions.

* `Os.Stable` says that the directories which the server can enter stay, in every
  system call of a run, and `Os.Answers` that a handler gets through its calls.
* `Tracked.Serviceable` is the condition on the steps of a run.
* `Tracked.Usable` is what a client relies on between its `OPEN` and its `QUIT`.
* `usable_of_reachable`: the sessions stay usable as long as every step meets the
  condition.
-/

namespace NetLabs.Ftp

open Lib

/-- The directories exist and can be entered, from wherever the process is. -/
structure Os.Stable (directory : Path → Prop) (os : Os) : Prop where
  fsExists : ∀ cwd dir, directory dir → os.fsExists cwd dir = some true
  chdir : ∀ cwd dir, directory dir → os.chdir cwd dir = some dir

/-- No call that the handler of the request makes in the directory throws, `ls` runs,
and what is written to the handler's buffers fits them. -/
structure Os.Answers (os : Os) (dir : Path) (req : Post) : Prop where
  ls : type2ind req.type = 1 → os.Runs dir (literal "ls")
  fsExists : type2ind req.type = 2 ∨ type2ind req.type = 3 ∨ type2ind req.type = 5 →
    os.fsExists dir (cString req.payload) ≠ none
  fsCanonical : type2ind req.type = 2 ∨ type2ind req.type = 5 →
    os.fsExists dir (cString req.payload) = some true →
    os.fsCanonical dir (cString req.payload) ≠ none
  sha : type2ind req.type = 5 → os.fsExists dir (cString req.payload) = some true →
    ∀ p, os.fsCanonical dir (cString req.payload) = some p →
      (Server.shaCommand p).length < maxbuf ∧
        ∀ output, os.popen dir (Server.shaCommand p) = some output → output.length < maxbuf

/-- The reply codes in the order of `funcs`. -/
def replyCodes : List UInt8 :=
  [openReply, listReply, cdReply, getReply, putReply, shaReply, quitReply]

/-- The post is a reply to the request, for `cd` with status 1 or 0. -/
structure Post.RepliesTo (req m : Post) : Prop where
  type : replyCodes[(type2ind req.type).toNat]? = some m.type
  status : type2ind req.type = 2 → m.status = 1 ∨ m.status = 0

namespace Tracked

variable (directory : Path → Prop) (listenfd : Int)

/-- No directory is removed during the run. -/
def Undisturbed (_ : Tracked) : Event → Prop
  | .request _ _ os => os.Stable directory
  | .dropped _ os => os.Stable directory
  | .badRequest _ _ os => os.Stable directory
  | _ => True

/-- A `cd` of a client that has opened a session names one of the directories if
it names anything. -/
def EntersDirectory (t : Tracked) : Event → Prop
  | .request fd req os => type2ind req.type = 2 → ∀ dir p, t.home fd = some dir →
      os.fsExists dir (cString req.payload) = some true →
      os.fsCanonical dir (cString req.payload) = some p → directory p
  | _ => True

/-- The server has not begun to read a payload that overruns its buffer, and the peer
of a handler that is about to send is there. -/
structure Sound (t : Tracked) : Prop where
  fits : ∀ fd c, t.loop.phase.receiving = some fd → t.loop.conns fd = some c →
    arrived c.unread ≠ .overrun
  peer : ∀ fd req os m next todo c, t.loop.phase = .handling fd req os (.send m next) todo →
    t.loop.conns fd = some c → c.ended = false

/-- The condition on a step: a request that is taken up, of whatever client, gets
through the calls of its handler, and a `cd` of a session names a directory.  For the
steps that end the process it says that they cannot be due to the client's directory,
to the type of a message, to the length of a payload or to a peer that is gone. -/
def Serviceable (t : Tracked) : Event → Prop
  | .request fd req os => t.EntersDirectory directory (.request fd req os) ∧
      ∀ dir, t.loop.server.handlerDir os fd = some dir → os.Answers dir req
  | .badRequest fd req os =>
      os.fsExists t.loop.server.cwd (t.loop.server.cwds (fd2ind fd)) ≠ none ∧
        Server.handler os req.type ≠ none
  | .exit => t.Sound
  | _ => True

/-- The loop has come to a client with an open session, and a whole request of it
has arrived. -/
structure AtRequest (t : Tracked) (fd : Int) (todo : List Int) (dir : Path) (c : Conn)
    (req : Post) (rest : List UInt8) : Prop where
  phase : t.loop.phase = .batch (fd :: todo)
  home : t.home fd = some dir
  conn : t.loop.conns fd = some c
  arrived : arrived c.unread = .post req rest

/-- The process runs, the entries are directories, and the handler that runs keeps
them so. -/
structure Entered (dft : Path) (t : Tracked) : Prop where
  alive : t.loop.phase ≠ .exited
  dftPath : t.loop.server.dftPath = dft
  entry : ∀ fd dir, t.home fd = some dir →
    t.loop.server.cwds (fd2ind fd) = dir ∧ directory dir
  handling : ∀ fd req os prog todo, t.loop.phase = .handling fd req os prog todo →
    (∀ dir, t.home fd = some dir → t.loop.server.cwd = dir) ∧
      t.EntersDirectory directory (.request fd req os) ∧ os.Answers t.loop.server.cwd req

end Tracked

/-! ## One request -/

section Request

variable {directory : Path → Prop} {os : Os} {fd : Int} {s : Server} {dir : Path} {req : Post}

/-- The loop enters an entry that is a directory. -/
theorem handlerDir_of_stable (hos : os.Stable directory) (hdir : directory dir)
    (hentry : s.cwds (fd2ind fd) = dir) : s.handlerDir os fd = some dir := by
  rw [Server.handlerDir, hentry, hos.fsExists s.cwd dir hdir]
  exact hos.chdir s.cwd dir hdir

/-- The handler replies to the request first, and it does not end the process. -/
def Begins (req : Post) (prog : Proc Post (Int × Server)) : Prop :=
  ∃ m next, prog = .send m next ∧ req.RepliesTo m ∧ ∀ ok, (next ok).Ends fun _ => True

theorem Begins.ends {prog : Proc Post (Int × Server)} (h : Begins req prog) :
    prog.Ends fun _ => True := by
  obtain ⟨m, next, rfl, _, hnext⟩ := h
  exact .send hnext

/-- A handler that sends its reply and goes on in one of two ways. -/
theorem begins_post {m : Post} {f : Bool → Proc Post (Int × Server)} (hm : req.RepliesTo m)
    (hfalse : (f false).Ends fun _ => True) (htrue : (f true).Ends fun _ => True) :
    Begins req (Proc.post m >>= f) := by
  refine ⟨m, f, rfl, hm, fun ok => ?_⟩
  cases ok with
  | false => exact hfalse
  | true => exact htrue

namespace Server

variable {args : Path}

theorem doOpen_begins (hind : type2ind req.type = 0) : Begins req (doOpen fd args s) :=
  begins_post ⟨by rw [hind]; rfl, by omega⟩ (.done trivial) (.done trivial)

theorem doQuit_begins (hind : type2ind req.type = 6) : Begins req (doQuit os fd args s) := by
  refine begins_post ⟨by rw [hind]; rfl, by omega⟩ (.done trivial) ?_
  show Proc.Ends _ (if (!os.close fd) = true then _ else _)
  split <;> exact .done trivial

theorem doLs_begins (hind : type2ind req.type = 1) (h : os.Runs s.cwd (literal "ls")) :
    Begins req (doLs os fd args s) := by
  obtain ⟨output, hpopen, hshort⟩ := h
  have hfits : min output.length maxbuf ≠ maxbuf := by omega
  unfold doLs
  simp only [hpopen, if_neg hfits]
  exact begins_post ⟨by rw [hind]; rfl, by omega⟩ (.done trivial) (.done trivial)

/-- The status of a reply about a path. -/
theorem statusOf_cases (found : Bool) : statusOf found = 1 ∨ statusOf found = 0 := by
  cases found with
  | false => exact .inr rfl
  | true => exact .inl rfl

theorem doCd_begins (hind : type2ind req.type = 2) (hexists : os.fsExists s.cwd args ≠ none)
    (hcanonical : os.fsExists s.cwd args = some true → os.fsCanonical s.cwd args ≠ none) :
    Begins req (doCd os fd args s) := by
  obtain ⟨found, hfound⟩ := Option.ne_none_iff_exists'.mp hexists
  unfold doCd
  simp only [hfound]
  refine begins_post ⟨by rw [hind]; rfl, fun _ => statusOf_cases found⟩ (.done trivial) ?_
  cases found with
  | false => exact .done trivial
  | true =>
    obtain ⟨dir, hdir⟩ := Option.ne_none_iff_exists'.mp (hcanonical hfound)
    simp only [hdir]
    exact .done trivial

theorem doGet_begins (hind : type2ind req.type = 3) (hexists : os.fsExists s.cwd args ≠ none) :
    Begins req (doGet os fd args s) := by
  obtain ⟨found, hfound⟩ := Option.ne_none_iff_exists'.mp hexists
  unfold doGet
  simp only [hfound]
  refine begins_post ⟨by rw [hind]; rfl, by omega⟩ (.done trivial) ?_
  cases found with
  | false => exact .done trivial
  | true =>
    generalize readFile (os.openRead s.cwd args) os.stale maxbuf = read
    show Proc.Ends _ (if read.1 < 0 then _ else _)
    split
    · exact .done trivial
    · exact .post (.done trivial) (.done trivial)

theorem doPut_begins (hind : type2ind req.type = 4) : Begins req (doPut os fd args s) := by
  refine begins_post ⟨by rw [hind]; rfl, by omega⟩ (.done trivial) (.receive (.done trivial) ?_)
  intro data
  show Proc.Ends _ (if data.type ≠ fileData then _ else _)
  split
  · exact .done trivial
  · cases os.openWrite s.cwd args with
    | none => exact .done trivial
    | some file => exact .done trivial

theorem doSha_begins (hind : type2ind req.type = 5) (hexists : os.fsExists s.cwd args ≠ none)
    (hcanonical : os.fsExists s.cwd args = some true → os.fsCanonical s.cwd args ≠ none)
    (hsha : os.fsExists s.cwd args = some true → ∀ p, os.fsCanonical s.cwd args = some p →
      (shaCommand p).length < maxbuf ∧
        ∀ output, os.popen s.cwd (shaCommand p) = some output → output.length < maxbuf) :
    Begins req (doSha os fd args s) := by
  obtain ⟨found, hfound⟩ := Option.ne_none_iff_exists'.mp hexists
  unfold doSha
  simp only [hfound]
  refine begins_post ⟨by rw [hind]; rfl, by omega⟩ (.done trivial) ?_
  cases found with
  | false => exact .done trivial
  | true =>
    obtain ⟨p, hp⟩ := Option.ne_none_iff_exists'.mp (hcanonical hfound)
    have ⟨hcommand, houtput⟩ := hsha hfound p hp
    simp only [hp, if_neg (Nat.not_le.mpr hcommand)]
    cases hpopen : os.popen s.cwd (shaCommand p) with
    | none => exact .done trivial
    | some output =>
      have hshort := houtput output hpopen
      have hfits : min output.length maxbuf ≠ maxbuf := by omega
      simp only [if_neg hfits]
      exact .post (.done trivial) (.done trivial)

end Server

/-- A handler that gets through its calls replies. -/
theorem handler_begins {func : Server.Handler} (hfunc : Server.handler os req.type = some func)
    (h : os.Answers s.cwd req) : Begins req (func fd (cString req.payload) s) := by
  rcases Server.handler_cases hfunc with ⟨hind, rfl⟩ | ⟨hind, rfl⟩ | ⟨hind, rfl⟩ | ⟨hind, rfl⟩ |
    ⟨hind, rfl⟩ | ⟨hind, rfl⟩ | ⟨hind, rfl⟩
  · exact Server.doOpen_begins hind
  · exact Server.doLs_begins hind (h.ls hind)
  · exact Server.doCd_begins hind (h.fsExists (.inl hind)) (h.fsCanonical (.inl hind))
  · exact Server.doGet_begins hind (h.fsExists (.inr (.inl hind)))
  · exact Server.doPut_begins hind
  · exact Server.doSha_begins hind (h.fsExists (.inr (.inr hind))) (h.fsCanonical (.inr hind))
      (h.sha hind)
  · exact Server.doQuit_begins hind

end Request

/-! ## Runs -/

/-- The step ends the process. -/
def Event.Fatal : Event → Prop
  | .badRequest _ _ _ | .exit => True
  | _ => False

theorem Loop.alive_of_step {listenfd : Int} {l l' : Loop} {e : Event}
    (hstep : LoopStep listenfd l e l') (halive : l.phase ≠ .exited) (hfatal : ¬ e.Fatal) :
    l'.phase ≠ .exited := by
  cases hstep with
  | connect | pending | peer => exact halive
  | poll | accept | acceptFailed | lost | request | dropped | send | sendFailed | receive
  | receiveFailed | finish => nofun
  | overrun | badRequest | halt | sigpipe => exact absurd trivial hfatal

namespace Tracked

variable {directory : Path → Prop} {listenfd : Int} {dft : Path} {t t' : Tracked} {e : Event}

/-- The handler that runs does not end the process. -/
theorem Entered.ends (h : t.Entered directory dft) (hl : t.loop.Orderly listenfd) {fd : Int}
    {req : Post} {os : Os} {prog : Proc Post (Int × Server)} {todo : List Int}
    (hphase : t.loop.phase = .handling fd req os prog todo) : prog.Ends fun _ => True := by
  have ⟨_, func, hfunc, hleaves⟩ := hl.remains _ _ _ _ _ hphase
  have ⟨_, _, hanswers⟩ := h.handling _ _ _ _ _ hphase
  exact hleaves.ends (handler_begins hfunc hanswers).ends

/-- The loop enters the directory of a session. -/
theorem Entered.handlerDir (h : t.Entered directory dft) {fd : Int} {dir : Path} {os : Os}
    (hos : os.Stable directory) (hdir : t.home fd = some dir) :
    t.loop.server.handlerDir os fd = some dir := by
  have ⟨hentry, hgood⟩ := h.entry fd dir hdir
  exact handlerDir_of_stable hos hgood hentry

/-- A step that meets the condition does not end the process. -/
theorem Entered.not_fatal (h : t.Entered directory dft) (hl : t.loop.Orderly listenfd)
    (hserve : t.Serviceable directory e) (hstep : Step listenfd t e t') : ¬ e.Fatal := by
  obtain ⟨loop', home'⟩ := t'
  obtain ⟨hloop, _⟩ := hstep
  simp only at hloop
  intro hfatal
  cases hloop with
  | connect | pending | peer | poll | accept | acceptFailed | lost | request | dropped | send
  | sendFailed | receive | receiveFailed | finish => exact hfatal
  | overrun hreceiving hconn harrived => exact hserve.fits _ _ hreceiving hconn harrived
  | badRequest os hphase hne hconn harrived hbad =>
    rcases hbad with hthrown | ⟨_, hnone⟩
    · exact hserve.1 hthrown
    · exact hserve.2 hnone
  | halt hphase => exact Proc.not_ends_halt (h.ends hl hphase)
  | sigpipe hphase hconn hended =>
    rw [hserve.peer _ _ _ _ _ _ _ hphase hconn] at hended
    cases hended

/-- A step that changes neither the sessions nor the server's state, and starts no
handler. -/
theorem Entered.of_same (h : t.Entered directory dft) (halive : t'.loop.phase ≠ .exited)
    (hhome : t'.home = t.home) (hserver : t'.loop.server = t.loop.server)
    (hhandling : ∀ fd req os prog todo, t'.loop.phase = .handling fd req os prog todo →
      ∃ prog, t.loop.phase = .handling fd req os prog todo) : t'.Entered directory dft where
  alive := halive
  dftPath := hserver ▸ h.dftPath
  entry := by
    rw [hhome, hserver]
    exact h.entry
  handling fd req os prog todo hphase := by
    have ⟨_, hbefore⟩ := hhandling fd req os prog todo hphase
    have ⟨hcwd, hcd, hanswers⟩ := h.handling fd req os _ todo hbefore
    rw [EntersDirectory] at hcd ⊢
    rw [hserver, hhome]
    exact ⟨hcwd, hcd, hanswers⟩

/-- **Step lemma**: a request that meets the condition, and every other step, keeps
the entries and the process. -/
theorem Entered.step (h : t.Entered directory dft) (hl : t.loop.Orderly listenfd)
    (hdft : directory dft) (hquiet : t.Undisturbed directory e)
    (hserve : t.Serviceable directory e) (hstep : Step listenfd t e t') :
    t'.Entered directory dft := by
  have halive : t'.loop.phase ≠ .exited :=
    Loop.alive_of_step hstep.1 h.alive (h.not_fatal hl hserve hstep)
  cases change_of_step hstep with
  | other hhome hserver hbatch hhandling => exact h.of_same halive hhome hserver hhandling
  | accept hbefore hbatch hserver hhome =>
    refine ⟨halive, ?_, ?_, ?_⟩
    · rw [hserver]
      exact h.dftPath
    · intro x dir hdir
      rw [hhome] at hdir
      rw [hserver]
      exact h.entry x dir (home_of_accept hdir)
    · intro fd req os prog todo hphase
      exact absurd hphase (not_handling_of_batch hbatch)
  | @request fd req os dir prog todo hdir hserver hphase hhome =>
    refine ⟨halive, ?_, ?_, ?_⟩
    · rw [hserver]
      exact h.dftPath
    · rw [hhome, hserver]
      exact h.entry
    · intro fd' req' os' prog' todo' hphase'
      rw [hphase] at hphase'
      cases hphase'
      have ⟨hcd, hanswers⟩ := hserve
      rw [EntersDirectory] at hcd ⊢
      rw [hserver, hhome]
      refine ⟨?_, hcd, hanswers dir hdir⟩
      intro dir' hdir'
      rw [h.handlerDir hquiet hdir'] at hdir
      exact (Option.some.inj hdir).symm
  | finish hphase hserver hbatch hhome =>
    have ⟨hcwd, hnamed, _⟩ := h.handling _ _ _ _ _ hphase
    refine ⟨halive, ?_, ?_, ?_⟩
    · rw [hserver, dftPath_of_finish hl hphase]
      exact h.dftPath
    · intro x dir hdir
      rw [hhome] at hdir
      rw [hserver]
      constructor
      · exact entry_of_finish hl hphase (fun x dir hdir => (h.entry x dir hdir).1) hcwd hdir
      · refine home_of_finish ?_ (fun x dir hdir => (h.entry x dir hdir).2) hnamed hdir
        rw [h.dftPath]
        exact hdft
    · intro fd req os prog todo hphase'
      exact absurd hphase' (not_handling_of_batch hbatch)

section AtRequest

variable {fd : Int} {todo : List Int} {dir : Path} {c : Conn} {req : Post} {rest : List UInt8}

/-- It is not the listening socket. -/
theorem AtRequest.ne (hat : t.AtRequest fd todo dir c req rest) (hl : t.loop.Orderly listenfd) :
    fd ≠ listenfd := by
  intro heq
  have hconn := hat.conn
  rw [heq, hl.listen] at hconn
  cases hconn

end AtRequest

end Tracked

end NetLabs.Ftp
