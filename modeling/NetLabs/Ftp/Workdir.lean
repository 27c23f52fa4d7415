import NetLabs.Ftp.EventLoop
import NetLabs.Ftp.InStep

/-!
# The working directory of a client

The process has one working directory.  The loop enters the directory of the
client before a handler runs, and goes back to `dft_path` behind it.

* `Tracked` adds to the loop what every client has asked for: the directory
  that its own `cd` requests lead to, from its last `OPEN` on.
* `Tracked.Isolated` is the property, `Tracked.Tied` the invariant behind it, and
  `Tracked.change_of_step` says once what a step can do to the sessions.
* `workdir_isolated_iff`: the handlers run in the right directory as long as
  what the clients have changed to still exists.
-/

namespace NetLabs.Ftp

open Lib

/-! ## What a client has asked for -/

/-- The directory of a client after a handler has returned `code`: `OPEN` starts
in `dft`, a successful `cd` is resolved in the client's own directory, and
`QUIT` ends the session. -/
def homeAfter (os : Os) (req : Post) (code : Int) (dft : Path) (home : Option Path) :
    Option Path :=
  let args := cString req.payload
  if code ≠ 0 then home
  else if type2ind req.type = 0 then some dft
  else if type2ind req.type = 6 then none
  else if type2ind req.type = 2 then
    home.bind fun dir =>
      if os.fsExists dir args = some true then os.fsCanonical dir args else some dir
  else home

/-- The loop and the directories of the clients that have opened a session. -/
structure Tracked where
  loop : Loop
  home : Int → Option Path

namespace Tracked

/-- The directories of the clients after a step. -/
def homeStep (l : Loop) (home : Int → Option Path) : Event → Int → Option Path
  | .accept fd _ => Function.update home fd none
  | .finish =>
    match l.phase with
    | .handling fd req os (.done (code, _)) _ =>
      Function.update home fd (homeAfter os req code l.server.dftPath (home fd))
    | _ => home
  | _ => home

theorem homeStep_finish {l : Loop} {home : Int → Option Path} {fd : Int} {req : Post} {os : Os}
    {code : Int} {s : Server} {todo : List Int}
    (hphase : l.phase = .handling fd req os (.done (code, s)) todo) :
    homeStep l home .finish =
      Function.update home fd (homeAfter os req code l.server.dftPath (home fd)) := by
  simp only [homeStep, hphase]

def Step (listenfd : Int) (t : Tracked) (e : Event) (t' : Tracked) : Prop :=
  LoopStep listenfd t.loop e t'.loop ∧ t'.home = homeStep t.loop t.home e

def start (listenfd : Int) (dir : Path) : Tracked := ⟨.start listenfd dir, fun _ => none⟩

/-- The event loop with the directories of the clients. -/
def system (listenfd : Int) (dir : Path) : System Tracked Event where
  init := (· = start listenfd dir)
  step := Step listenfd

/-- A handler of a client that has opened a session runs in the directory of
that client, and between the requests the process is in `dft_path`. -/
structure Isolated (t : Tracked) : Prop where
  handling : ∀ fd req os prog todo, t.loop.phase = .handling fd req os prog todo →
    ∀ dir, t.home fd = some dir → t.loop.server.cwd = dir
  back : ∀ todo, t.loop.phase = .batch todo → t.loop.server.cwd = t.loop.server.dftPath

end Tracked

/-- What the paths of the file system do: `fs::canonical` gives a canonical path,
and whoever changes to a canonical path is there. -/
structure Os.Resolves (canonical : Path → Prop) (os : Os) : Prop where
  fsCanonical : ∀ cwd path p, os.fsCanonical cwd path = some p → canonical p
  chdir : ∀ cwd p dir, canonical p → os.chdir cwd p = some dir → dir = p

/-- The request of a client that has opened a session finds the client's
directory in place, and the way back to `dft_path` is open. -/
def Tracked.InPlace (canonical : Path → Prop) (t : Tracked) : Event → Prop
  | .request fd _ os => os.Resolves canonical ∧
      (∀ cwd, os.chdir cwd t.loop.server.dftPath ≠ none) ∧
      ∀ dir, t.home fd = some dir → os.fsExists t.loop.server.cwd dir = some true
  | _ => True

namespace Tracked

/-- The table has the directory of every session, and the process is where it
should be. -/
structure Tied (canonical : Path → Prop) (dft : Path) (t : Tracked) : Prop where
  dftPath : t.loop.server.dftPath = dft
  entry : ∀ fd dir, t.home fd = some dir →
    canonical dir ∧ t.loop.server.cwds (fd2ind fd) = dir
  back : ∀ todo, t.loop.phase = .batch todo → t.loop.server.cwd = dft
  handling : ∀ fd req os prog todo, t.loop.phase = .handling fd req os prog todo →
    (os.Resolves canonical ∧ ∀ cwd, os.chdir cwd dft ≠ none) ∧
      ∀ dir, t.home fd = some dir → t.loop.server.cwd = dir

end Tracked

/-! ## One request -/

section Request

variable {canonical : Path → Prop} {os : Os} {fd : Int} {req : Post} {code : Int} {dft : Path}
  {home : Option Path} {s : Server}

/-- Resolving starts in a good directory and ends in one, when `cd` finds good
ones. -/
theorem of_homeAfter {P : Path → Prop} (hdft : P dft) (hhome : ∀ dir, home = some dir → P dir)
    (hcd : type2ind req.type = 2 → ∀ dir p, home = some dir →
      os.fsExists dir (cString req.payload) = some true →
      os.fsCanonical dir (cString req.payload) = some p → P p)
    {dir : Path} (h : homeAfter os req code dft home = some dir) : P dir := by
  simp only [homeAfter] at h
  split_ifs at h with hcode hopen hquit hind
  · exact hhome dir h
  · exact Option.some.inj h ▸ hdft
  · have ⟨old, hold, hnew⟩ := Option.bind_eq_some_iff.mp h
    split_ifs at hnew with hfound
    · exact hcd hind old _ hold hfound hnew
    · exact Option.some.inj hnew ▸ hhome old hold
  · exact hhome dir h

theorem homeAfter_failed (hcode : code ≠ 0) : homeAfter os req code dft home = home := by
  simp [homeAfter, hcode]

/-- Only three handlers change where a client is. -/
theorem homeAfter_other (hopen : type2ind req.type ≠ 0) (hquit : type2ind req.type ≠ 6)
    (hcd : type2ind req.type ≠ 2) : homeAfter os req code dft home = home := by
  simp [homeAfter, hopen, hquit, hcd]

theorem homeAfter_cd (hcd : type2ind req.type = 2) :
    homeAfter os req 0 dft home = home.bind fun dir =>
      if os.fsExists dir (cString req.payload) = some true then
        os.fsCanonical dir (cString req.payload)
      else some dir := by
  simp [homeAfter, hcd]

/-- A handler that runs in the client's directory stores the directory that the
request leads to. -/
theorem handler_home {func : Server.Handler} (hfunc : Server.handler os req.type = some func)
    (hhome : ∀ dir, home = some dir → s.cwds (fd2ind fd) = dir ∧ s.cwd = dir) :
    (func fd (cString req.payload) s).Returns fun x => ∀ dir,
      homeAfter os req x.1 s.dftPath home = some dir → x.2.cwds (fd2ind fd) = dir := by
  have hfailed : ∀ dir, homeAfter os req (-1) s.dftPath home = some dir →
      s.cwds (fd2ind fd) = dir := by
    rw [homeAfter_failed (by decide)]
    exact fun dir hdir => (hhome dir hdir).1
  rcases Server.handler_cases hfunc with ⟨hind, rfl⟩ | ⟨hind, rfl⟩ | ⟨hind, rfl⟩ | ⟨hind, rfl⟩ |
    ⟨hind, rfl⟩ | ⟨hind, rfl⟩ | ⟨hind, rfl⟩
  · refine Server.doOpen_returns.mono fun x hx => ?_
    rcases hx with rfl | rfl
    · exact hfailed
    · intro dir hdir
      simp only [homeAfter, hind] at hdir
      cases hdir
      exact Server.setCwds_self _
  · refine Server.doLs_returns.mono fun x hx dir hdir => ?_
    rw [homeAfter_other (by omega) (by omega) (by omega)] at hdir
    exact hx ▸ (hhome dir hdir).1
  · refine Server.doCd_returns.mono fun x hx => ?_
    rcases hx with rfl | ⟨hfound, rfl⟩ | ⟨hfound, new, hnew, rfl⟩
    · exact hfailed
    · intro dir hdir
      rw [homeAfter_cd hind] at hdir
      have ⟨old, hold, hdir⟩ := Option.bind_eq_some_iff.mp hdir
      have ⟨hentry, hcwd⟩ := hhome old hold
      rw [← hcwd, if_neg (by simp [hfound]), hcwd] at hdir
      exact hentry.trans (Option.some.inj hdir)
    · intro dir hdir
      rw [homeAfter_cd hind] at hdir
      have ⟨old, hold, hdir⟩ := Option.bind_eq_some_iff.mp hdir
      rw [← (hhome old hold).2, if_pos hfound, hnew] at hdir
      cases hdir
      exact Server.setCwds_self _
  · refine Server.doGet_returns.mono fun x hx dir hdir => ?_
    rw [homeAfter_other (by omega) (by omega) (by omega)] at hdir
    exact hx ▸ (hhome dir hdir).1
  · refine Server.doPut_returns.mono fun x ⟨written, hx⟩ dir hdir => ?_
    rw [homeAfter_other (by omega) (by omega) (by omega)] at hdir
    exact hx ▸ (hhome dir hdir).1
  · refine Server.doSha_returns.mono fun x hx dir hdir => ?_
    rw [homeAfter_other (by omega) (by omega) (by omega)] at hdir
    exact hx ▸ (hhome dir hdir).1
  · refine Server.doQuit_returns.mono fun x hx => ?_
    rcases hx with rfl | ⟨_, rfl⟩ | ⟨_, rfl⟩
    · exact hfailed
    · exact hfailed
    · intro dir hdir
      simp [homeAfter, hind] at hdir

/-- The directory that the loop enters for an entry that exists. -/
theorem handlerDir_eq (hos : os.Resolves canonical) {dir dir' : Path} (hdir : canonical dir)
    (hentry : s.cwds (fd2ind fd) = dir) (hexists : os.fsExists s.cwd dir = some true)
    (h : s.handlerDir os fd = some dir') : dir' = dir := by
  rw [Server.handlerDir, hentry, hexists] at h
  exact hos.chdir _ _ _ hdir h

/-- Where there is no entry the handler runs where the process is. -/
theorem handlerDir_missing {dir dir' : Path} (hentry : s.cwds (fd2ind fd) = dir)
    (hmissing : os.fsExists s.cwd dir ≠ some true) (h : s.handlerDir os fd = some dir') :
    dir' = s.cwd := by
  rw [Server.handlerDir, hentry] at h
  cases hexists : os.fsExists s.cwd dir with
  | none =>
    rw [hexists] at h
    cases h
  | some found =>
    rw [hexists] at h hmissing
    cases found with
    | true => exact absurd rfl hmissing
    | false => exact (Option.some.inj h).symm

/-- The way back. -/
theorem cwd_leave (hos : os.Resolves canonical) (hback : ∀ cwd, os.chdir cwd s.dftPath ≠ none)
    (hdft : canonical s.dftPath) : (Server.leave os s).cwd = s.dftPath := by
  have ⟨dir, hdir⟩ := Option.ne_none_iff_exists'.mp (hback s.cwd)
  rw [Server.leave_cwd hdir]
  exact hos.chdir _ _ _ hdft hdir

end Request

/-! ## Runs -/

namespace Tracked

variable {canonical : Path → Prop} {listenfd : Int} {dft : Path} {t t' : Tracked} {e : Event}

/-- What a step does to the sessions and to the state of the server. -/
inductive Change (t t' : Tracked) : Event → Prop
  /-- Nothing, and no handler starts or ends. -/
  | other {e : Event} (hhome : t'.home = t.home) (hserver : t'.loop.server = t.loop.server)
      (hbatch : ∀ todo, t'.loop.phase = .batch todo → ∃ todo, t.loop.phase = .batch todo)
      (hhandling : ∀ fd req os prog todo, t'.loop.phase = .handling fd req os prog todo →
        ∃ prog, t.loop.phase = .handling fd req os prog todo) : Change t t' e
  | accept {fd : Int} {added : Bool} {before todo : List Int} {registered : List Int}
      (hbefore : t.loop.phase = .batch before) (hbatch : t'.loop.phase = .batch todo)
      (hserver : t'.loop.server = { t.loop.server with registered := registered })
      (hhome : t'.home = Function.update t.home fd none) : Change t t' (.accept fd added)
  | request {fd : Int} {req : Post} {os : Os} {dir : Path} {prog : Proc Post (Int × Server)}
      {todo : List Int} (hdir : t.loop.server.handlerDir os fd = some dir)
      (hserver : t'.loop.server = { t.loop.server with cwd := dir })
      (hphase : t'.loop.phase = .handling fd req os prog todo) (hhome : t'.home = t.home) :
      Change t t' (.request fd req os)
  | finish {fd : Int} {req : Post} {os : Os} {code : Int} {s : Server} {before todo : List Int}
      (hphase : t.loop.phase = .handling fd req os (.done (code, s)) before)
      (hserver : t'.loop.server = Server.leave os s) (hbatch : t'.loop.phase = .batch todo)
      (hhome : t'.home = Function.update t.home fd
        (homeAfter os req code t.loop.server.dftPath (t.home fd))) : Change t t' .finish

theorem change_of_step (hstep : Step listenfd t e t') : t.Change t' e := by
  obtain ⟨loop, home⟩ := t
  obtain ⟨loop', home'⟩ := t'
  obtain ⟨hloop, hhome⟩ := hstep
  simp only at hloop hhome
  subst hhome
  cases hloop with
  | connect | pending | peer =>
    exact .other rfl rfl (fun todo hphase => ⟨todo, hphase⟩) fun _ _ _ prog _ hphase =>
      ⟨prog, hphase⟩
  | poll hphase hpolls => exact .other rfl rfl (fun _ _ => ⟨_, hphase⟩) nofun
  | acceptFailed hphase => exact .other rfl rfl (fun _ _ => ⟨_, hphase⟩) nofun
  | lost hphase => exact .other rfl rfl (fun _ _ => ⟨_, hphase⟩) nofun
  | dropped os hphase => exact .other rfl rfl (fun _ _ => ⟨_, hphase⟩) nofun
  | overrun | badRequest | halt | sigpipe => exact .other rfl rfl nofun nofun
  | send hphase | sendFailed hphase | receive hphase | receiveFailed hphase =>
    refine .other rfl rfl nofun ?_
    intro fd req os prog todo heq
    cases heq
    exact ⟨_, hphase⟩
  | @accept fd added c backlog todo hphase =>
    cases added with
    | false => exact .accept hphase rfl rfl rfl
    | true => exact .accept hphase rfl rfl rfl
  | request hphase hne hconn harrived hdir => exact .request hdir rfl rfl rfl
  | finish hphase => exact .finish hphase rfl rfl (homeStep_finish hphase)

theorem not_handling_of_batch {l : Loop} {todo : List Int} (h : l.phase = .batch todo) {fd : Int}
    {req : Post} {os : Os} {prog : Proc Post (Int × Server)} {todo' : List Int} :
    l.phase ≠ .handling fd req os prog todo' := by
  rw [h]
  nofun

/-- A new connection has no session. -/
theorem home_of_accept {home : Int → Option Path} {fd x : Int} {dir : Path}
    (h : Function.update home fd none x = some dir) : home x = some dir := by
  by_cases hx : x = fd
  · rw [hx, Function.update_self] at h
    cases h
  · rw [Function.update_of_ne hx] at h
    exact h

section Finish

variable {fd x : Int} {req : Post} {os : Os} {code : Int} {s : Server} {todo : List Int} {dir : Path}

/-- A handler keeps what all directories of the sessions have in common. -/
theorem home_of_finish {P : Path → Prop} (hdft : P t.loop.server.dftPath)
    (hhome : ∀ x dir, t.home x = some dir → P dir)
    (hcd : type2ind req.type = 2 → ∀ dir p, t.home fd = some dir →
      os.fsExists dir (cString req.payload) = some true →
      os.fsCanonical dir (cString req.payload) = some p → P p)
    (hdir : Function.update t.home fd
      (homeAfter os req code t.loop.server.dftPath (t.home fd)) x = some dir) : P dir := by
  by_cases hx : x = fd
  · rw [hx, Function.update_self] at hdir
    exact of_homeAfter hdft (hhome fd) hcd hdir
  · rw [Function.update_of_ne hx] at hdir
    exact hhome x dir hdir

/-- A handler that has run in its client's directory leaves the table as the
sessions are. -/
theorem entry_of_finish (hl : t.loop.Orderly listenfd)
    (hphase : t.loop.phase = .handling fd req os (.done (code, s)) todo)
    (hentry : ∀ x dir, t.home x = some dir → t.loop.server.cwds (fd2ind x) = dir)
    (hcwd : ∀ dir, t.home fd = some dir → t.loop.server.cwd = dir)
    (hdir : Function.update t.home fd
      (homeAfter os req code t.loop.server.dftPath (t.home fd)) x = some dir) :
    (Server.leave os s).cwds (fd2ind x) = dir := by
  rw [Server.leave_cwds]
  by_cases hx : x = fd
  · have ⟨_, hremains⟩ := hl.remains _ _ _ _ _ hphase
    have hstored : ∀ dir, homeAfter os req code t.loop.server.dftPath (t.home fd) = some dir →
        s.cwds (fd2ind fd) = dir :=
      hremains.returns fun _ hfunc =>
        handler_home hfunc fun dir hdir => ⟨hentry fd dir hdir, hcwd dir hdir⟩
    rw [hx, Function.update_self] at hdir
    rw [hx]
    exact hstored dir hdir
  · rw [Function.update_of_ne hx] at hdir
    rw [(hl.framed hphase).cwds x hx]
    exact hentry x dir hdir

theorem dftPath_of_finish (hl : t.loop.Orderly listenfd)
    (hphase : t.loop.phase = .handling fd req os (.done (code, s)) todo) :
    (Server.leave os s).dftPath = t.loop.server.dftPath :=
  Server.leave_dftPath.trans (hl.framed hphase).dftPath

end Finish

theorem tied_start : (start listenfd dft).Tied canonical dft :=
  ⟨rfl, nofun, fun _ _ => rfl, nofun⟩

/-- A step that does not enter or leave a directory. -/
theorem Tied.of_same (h : t.Tied canonical dft) (hhome : t'.home = t.home)
    (hserver : t'.loop.server = t.loop.server)
    (hbatch : ∀ todo, t'.loop.phase = .batch todo → ∃ todo, t.loop.phase = .batch todo)
    (hhandling : ∀ fd req os prog todo, t'.loop.phase = .handling fd req os prog todo →
      ∃ prog, t.loop.phase = .handling fd req os prog todo) : t'.Tied canonical dft where
  dftPath := hserver ▸ h.dftPath
  entry := by
    rw [hhome, hserver]
    exact h.entry
  back todo hphase := by
    have ⟨_, hbefore⟩ := hbatch todo hphase
    rw [hserver]
    exact h.back _ hbefore
  handling fd req os prog todo hphase := by
    have ⟨_, hbefore⟩ := hhandling fd req os prog todo hphase
    rw [hserver, hhome]
    exact h.handling fd req os _ todo hbefore

/-- **Step lemma**: a request that finds the client's directory in place, and
every other step, keeps the invariant. -/
theorem Tied.step (h : t.Tied canonical dft) (hl : t.loop.Orderly listenfd)
    (hdft : canonical dft) (hplace : t.InPlace canonical e) (hstep : Step listenfd t e t') :
    t'.Tied canonical dft := by
  cases change_of_step hstep with
  | other hhome hserver hbatch hhandling => exact h.of_same hhome hserver hbatch hhandling
  | accept hbefore hbatch hserver hhome =>
    refine ⟨?_, ?_, ?_, ?_⟩
    · rw [hserver]
      exact h.dftPath
    · intro x dir hdir
      rw [hhome] at hdir
      rw [hserver]
      exact h.entry x dir (home_of_accept hdir)
    · intro todo _
      rw [hserver]
      exact h.back _ hbefore
    · intro fd req os prog todo hphase
      exact absurd hphase (not_handling_of_batch hbatch)
  | @request fd req os dir prog todo hdir hserver hphase hhome =>
    have ⟨hos, hback, hexists⟩ := hplace
    rw [h.dftPath] at hback
    refine ⟨?_, ?_, ?_, ?_⟩
    · rw [hserver]
      exact h.dftPath
    · rw [hhome, hserver]
      exact h.entry
    · intro todo hbatch
      rw [hphase] at hbatch
      cases hbatch
    · intro fd' req' os' prog' todo' hphase'
      rw [hphase] at hphase'
      cases hphase'
      rw [hserver, hhome]
      refine ⟨⟨hos, hback⟩, ?_⟩
      intro dir' hdir'
      have ⟨hcanonical, hentry⟩ := h.entry fd dir' hdir'
      exact handlerDir_eq hos hcanonical hentry (hexists dir' hdir') hdir
  | @finish fd req os code s before todo hphase hserver hbatch hhome =>
    have ⟨⟨hos, hback⟩, hcwd⟩ := h.handling _ _ _ _ _ hphase
    have hdftPath : s.dftPath = dft := (hl.framed hphase).dftPath.trans h.dftPath
    refine ⟨?_, ?_, ?_, ?_⟩
    · rw [hserver, dftPath_of_finish hl hphase]
      exact h.dftPath
    · intro x dir hdir
      rw [hhome] at hdir
      rw [hserver]
      constructor
      · refine home_of_finish ?_ (fun x dir hdir => (h.entry x dir hdir).1)
          (fun _ cwd p _ _ => hos.fsCanonical cwd _ p) hdir
        rw [h.dftPath]
        exact hdft
      · exact entry_of_finish hl hphase (fun x dir hdir => (h.entry x dir hdir).2) hcwd hdir
    · intro _ _
      rw [hserver, cwd_leave hos (hdftPath ▸ hback) (hdftPath ▸ hdft), hdftPath]
    · intro fd' req' os' prog' todo' hphase'
      exact absurd hphase' (not_handling_of_batch hbatch)

theorem orderly_of_reachable (h : (system listenfd dft).Reachable t) :
    t.loop.Orderly listenfd := by
  induction h with
  | init hinit =>
    subst hinit
    exact Loop.orderly_start
  | step _ hstep ih => exact ih.step hstep.1

theorem tied_of_reachable (hdft : canonical dft)
    (h : ((system listenfd dft).restrict (InPlace canonical)).Reachable t) :
    t.Tied canonical dft := by
  induction h with
  | init hinit =>
    subst hinit
    exact tied_start
  | step hreach hstep ih =>
    exact ih.step (orderly_of_reachable hreach.of_restrict) hdft hstep.1 hstep.2

theorem Tied.isolated (h : t.Tied canonical dft) : t.Isolated :=
  ⟨fun fd req os prog todo hphase => (h.handling fd req os prog todo hphase).2,
    fun todo hphase => (h.back todo hphase).trans h.dftPath.symm⟩

/-- Every `cd` names a directory, and no directory is removed. -/
def OnlyDirectories (canonical directory : Path → Prop) (t : Tracked) : Event → Prop
  | .request _ req os => os.Resolves canonical ∧
      (∀ cwd, os.chdir cwd t.loop.server.dftPath ≠ none) ∧
      (∀ cwd dir, directory dir → os.fsExists cwd dir = some true) ∧
      (type2ind req.type = 2 →
        ∀ cwd p, os.fsCanonical cwd (cString req.payload) = some p → directory p)
  | _ => True

/-- The clients are in directories, also after the handler that runs. -/
structure InDirectories (directory : Path → Prop) (dft : Path) (t : Tracked) : Prop where
  dftPath : t.loop.server.dftPath = dft
  home : ∀ fd dir, t.home fd = some dir → directory dir
  handling : ∀ fd req os prog todo, t.loop.phase = .handling fd req os prog todo →
    type2ind req.type = 2 →
      ∀ cwd p, os.fsCanonical cwd (cString req.payload) = some p → directory p

variable {directory : Path → Prop}

theorem InDirectories.of_same (h : t.InDirectories directory dft) (hhome : t'.home = t.home)
    (hserver : t'.loop.server = t.loop.server)
    (hhandling : ∀ fd req os prog todo, t'.loop.phase = .handling fd req os prog todo →
      ∃ prog, t.loop.phase = .handling fd req os prog todo) : t'.InDirectories directory dft where
  dftPath := hserver ▸ h.dftPath
  home := hhome ▸ h.home
  handling fd req os prog todo hphase := by
    have ⟨_, hbefore⟩ := hhandling fd req os prog todo hphase
    exact h.handling fd req os _ todo hbefore

theorem InDirectories.step (h : t.InDirectories directory dft) (hl : t.loop.Orderly listenfd)
    (hdft : directory dft) (honly : t.OnlyDirectories canonical directory e)
    (hstep : Step listenfd t e t') : t'.InDirectories directory dft := by
  cases change_of_step hstep with
  | other hhome hserver hbatch hhandling => exact h.of_same hhome hserver hhandling
  | accept hbefore hbatch hserver hhome =>
    refine ⟨?_, ?_, ?_⟩
    · rw [hserver]
      exact h.dftPath
    · intro x dir hdir
      rw [hhome] at hdir
      exact h.home x dir (home_of_accept hdir)
    · intro fd req os prog todo hphase
      exact absurd hphase (not_handling_of_batch hbatch)
  | request hdir hserver hphase hhome =>
    refine ⟨?_, ?_, ?_⟩
    · rw [hserver]
      exact h.dftPath
    · rw [hhome]
      exact h.home
    · intro fd req os prog todo hphase'
      rw [hphase] at hphase'
      cases hphase'
      exact honly.2.2.2
  | finish hphase hserver hbatch hhome =>
    refine ⟨?_, ?_, ?_⟩
    · rw [hserver, dftPath_of_finish hl hphase]
      exact h.dftPath
    · intro x dir hdir
      rw [hhome] at hdir
      refine home_of_finish ?_ h.home
        (fun hind cwd p _ _ => h.handling _ _ _ _ _ hphase hind cwd p) hdir
      rw [h.dftPath]
      exact hdft
    · intro fd req os prog todo hphase'
      exact absurd hphase' (not_handling_of_batch hbatch)

/-- As long as every `cd` names a directory, everything stays in place. -/
theorem inPlace_of_onlyDirectories (hdft : directory dft)
    (h : ((system listenfd dft).restrict (OnlyDirectories canonical directory)).Reachable t) :
    ((system listenfd dft).restrict (InPlace canonical)).Reachable t ∧
      t.InDirectories directory dft := by
  induction h with
  | init hinit =>
    subst hinit
    exact ⟨.init rfl, rfl, nofun, nofun⟩
  | @step t t' e hreach hstep ih =>
    have ⟨hplaced, hdirectories⟩ := ih
    have horderly := orderly_of_reachable hreach.of_restrict
    refine ⟨.step hplaced ⟨?_, hstep.2⟩, hdirectories.step horderly hdft hstep.1 hstep.2⟩
    cases e with
    | request fd req os =>
      have ⟨hos, hback, hexists, _⟩ := hstep.1
      exact ⟨hos, hback, fun dir hdir => hexists _ dir (hdirectories.home fd dir hdir)⟩
    | connect | pending | peer | poll | accept | acceptFailed | lost | dropped | send | receive
    | finish | badRequest | exit => trivial

end Tracked

/-- **In directories every client keeps its own**: as long as every `cd` names a
directory and none is removed, the handlers run in the directories of their
clients. -/
theorem isolated_of_onlyDirectories {canonical directory : Path → Prop} {listenfd : Int}
    {dft : Path} {t : Tracked} (hcanonical : canonical dft) (hdft : directory dft)
    (h : ((Tracked.system listenfd dft).restrict
      (Tracked.OnlyDirectories canonical directory)).Reachable t) : t.Isolated :=
  (Tracked.tied_of_reachable hcanonical (Tracked.inPlace_of_onlyDirectories hdft h).1).isolated

/-- **Every client has its own working directory**, in every run in which the
requests of the clients that have opened a session find the directory in place.
A request that finds it gone runs in `dft_path`. -/
theorem workdir_isolated_iff {canonical : Path → Prop} {listenfd : Int} {dft : Path} {t : Tracked}
    (hdft : canonical dft)
    (h : ((Tracked.system listenfd dft).restrict (Tracked.InPlace canonical)).Reachable t) :
    t.Isolated ∧ ∀ fd req os t', Tracked.Step listenfd t (.request fd req os) t' →
      os.Resolves canonical → ∀ dir, t.home fd = some dir →
        (t'.loop.server.cwd = dir ↔
          os.fsExists t.loop.server.cwd dir = some true ∨ dir = dft) := by
  have htied := Tracked.tied_of_reachable hdft h
  refine ⟨htied.isolated, fun fd req os t' hstep hos dir hdir => ?_⟩
  have ⟨hcanonical, hentry⟩ := htied.entry fd dir hdir
  obtain ⟨loop', home'⟩ := t'
  obtain ⟨hloop, _⟩ := hstep
  simp only at hloop
  cases hloop with
  | @request _ _ _ c rest dir' func todo hphase hne hconn harrived hdir' hfunc =>
    show dir' = dir ↔ _
    by_cases hexists : os.fsExists t.loop.server.cwd dir = some true
    · exact iff_of_true (handlerDir_eq hos hcanonical hentry hexists hdir') (.inl hexists)
    · have hcwd := handlerDir_missing hentry hexists hdir'
      rw [htied.back _ hphase] at hcwd
      rw [hcwd, eq_comm]
      simp [hexists]

/-! ## A `cd` to a file -/

/-- A system with a file `/srv/f`, which every `cd` names. -/
def fileOs : Os :=
  { plainOs with
    fsExists := fun _ path => some (path ≠ literal "NULL")
    fsCanonical := fun _ _ => some (literal "/srv/f")
    chdir := fun _ path => if path = literal "/srv" then some path else none }

/-- A client that opens its session, changes to `f` and lists the directory. -/
def fileConn : Conn :=
  ⟨Post.bytes ⟨openRequest, 0, []⟩ ++ (Post.bytes ⟨cdRequest, 0, literal "f" ++ [0]⟩ ++
    Post.bytes ⟨listRequest, 0, []⟩), false, maxbuf, false⟩

/-- The step makes none of the system calls that a condition on a run may be about,
and the process goes on. -/
def Event.Quiet : Event → Prop
  | .request _ _ _ | .dropped _ _ | .badRequest _ _ _ | .exit => False
  | _ => True

/-- The server in `/srv` waits for requests of its only client, whose bytes these are,
in a run whose steps satisfy a condition. -/
structure Idle (ok : Tracked → Event → Prop) (t : Tracked) (s : Server) (home : Option Path)
    (unread : List UInt8) (room : Nat) : Prop where
  quiet : ∀ t e, e.Quiet → ok t e
  reachable : ((Tracked.system 3 (literal "/srv")).restrict ok).Reachable t
  phase : t.loop.phase = .batch []
  server : t.loop.server = s
  registered : s.registered = [5, 3]
  backlog : t.loop.backlog = []
  conn : t.loop.conns 5 = some ⟨unread, false, room, false⟩
  home : t.home 5 = home

section OneClient

variable {ok : Tracked → Event → Prop} {os : Os} {t : Tracked} {s : Server} {home : Option Path}
  {req : Post} {rest : List UInt8} {room : Nat} {dir : Path} {func : Server.Handler}

theorem reachable_quiet (hquiet : ∀ t e, e.Quiet → ok t e) (e : Event) (he : e.Quiet)
    (h : ((Tracked.system 3 (literal "/srv")).restrict ok).Reachable t) (t' : Tracked)
    (hstep : Tracked.Step 3 t e t') :
    ((Tracked.system 3 (literal "/srv")).restrict ok).Reachable t' :=
  .step h ⟨hquiet t e he, hstep⟩

/-- The client has been accepted. -/
theorem idle_accepted (hquiet : ∀ t e, e.Quiet → ok t e) (unread : List UInt8) :
    Idle ok ⟨⟨⟨literal "/srv", literal "/srv", fun _ => literal "NULL", [5, 3], []⟩,
      Function.update (fun _ => none) 5 (some ⟨unread, false, maxbuf, false⟩), [], .batch []⟩,
      Function.update (fun _ => none) 5 none⟩
    ⟨literal "/srv", literal "/srv", fun _ => literal "NULL", [5, 3], []⟩ none unread maxbuf := by
  let c : Conn := ⟨unread, false, maxbuf, false⟩
  have hconnect := reachable_quiet hquiet (.connect c) trivial (.init rfl)
    ⟨{ Loop.start 3 (literal "/srv") with backlog := [c] }, fun _ => none⟩ ⟨.connect c rfl, rfl⟩
  have hpoll := reachable_quiet hquiet (.poll [3]) trivial hconnect ⟨_, _⟩
    ⟨.poll rfl (Loop.polls_start c), rfl⟩
  have haccept := reachable_quiet hquiet (.accept 5 true) trivial hpoll ⟨_, _⟩
    ⟨.accept rfl rfl rfl (by decide), rfl⟩
  exact ⟨hquiet, haccept, rfl, rfl, rfl, rfl, rfl, rfl⟩

/-- `epoll_wait` reports the client. -/
theorem Idle.poll (h : Idle ok t s home (req.bytes ++ rest) room) (hfits : req.Fits) :
    ((Tracked.system 3 (literal "/srv")).restrict ok).Reachable
      ⟨t.loop.goto (.batch [5]), t.home⟩ := by
  have hunread : req.bytes ++ rest ≠ [] := by
    intro hnil
    have harrived := arrived_bytes hfits rest
    rw [hnil, not_arrived_nil] at harrived
    cases harrived
  have hregistered : t.loop.server.registered = [5, 3] := by
    rw [h.server]
    exact h.registered
  exact reachable_quiet h.quiet (.poll [5]) trivial h.reachable _
    ⟨.poll h.phase (Loop.polls_client hregistered h.backlog (by decide) h.conn hunread), rfl⟩

/-- The request reaches its handler. -/
theorem Idle.request (h : Idle ok t s home (req.bytes ++ rest) room) (hfits : req.Fits)
    (hdir : s.handlerDir os 5 = some dir) (hfunc : Server.handler os req.type = some func) :
    ∃ l, LoopStep 3 (t.loop.goto (.batch [5])) (.request 5 req os) l ∧
      l.phase = .handling 5 req os (func 5 (cString req.payload) { s with cwd := dir }) [] ∧
      l.server = { s with cwd := dir } ∧ l.backlog = [] ∧
      l.conns 5 = some ⟨rest, false, room, false⟩ := by
  obtain ⟨_, _, _, rfl, _, hbacklog, hconn, _⟩ := h
  have hne : (5 : Int) ≠ 3 := by decide
  refine ⟨_, .request (l := t.loop.goto (.batch [5])) rfl hne hconn (arrived_bytes hfits rest) hdir
    hfunc, rfl, rfl, hbacklog, ?_⟩
  simp

/-- A request whose handler sends one reply. -/
theorem Idle.answer {s' : Server} {m : Post} {next : Bool → Proc Post (Int × Server)} (req : Post)
    (h : Idle ok t s home (req.bytes ++ rest) room) (hfits : req.Fits)
    (hok : ok ⟨t.loop.goto (.batch [5]), t.home⟩ (.request 5 req os))
    (hdir : s.handlerDir os 5 = some dir) (hfunc : Server.handler os req.type = some func)
    (hrun : func 5 (cString req.payload) { s with cwd := dir } = .send m next)
    (hnext : next true = .done (0, s')) (hroom : m.bytes.length ≤ room)
    (hregistered : s'.registered = [5, 3]) :
    ∃ t', Idle ok t' (Server.leave os s') (homeAfter os req 0 s.dftPath home) rest
      (room - m.bytes.length) := by
  have ⟨running, hstep, hphase, hserver, hbacklog, hconn⟩ := h.request hfits hdir hfunc
  have hrequest : ((Tracked.system 3 (literal "/srv")).restrict ok).Reachable ⟨running, t.home⟩ :=
    (h.poll hfits).step (e := Event.request 5 req os) ⟨hok, hstep, rfl⟩
  rw [hrun] at hphase
  have hsend := reachable_quiet h.quiet (.send true) trivial hrequest
    ⟨(running.setConn 5 (some ⟨rest, false, room - m.bytes.length, false⟩)).goto
      (.handling 5 req os (next true) []), t.home⟩ ⟨.send hphase hconn hroom, rfl⟩
  rw [hnext] at hsend
  have hfinish := reachable_quiet h.quiet .finish trivial hsend ⟨⟨_, _, _, _⟩,
    Function.update t.home 5 (homeAfter os req 0 running.server.dftPath (t.home 5))⟩
    ⟨.finish rfl, rfl⟩
  have hopen : ¬ (5 ∉ s'.registered ∧ os.close 5 = true) := by
    simp [hregistered]
  refine ⟨_, h.quiet, hfinish, rfl, rfl, ?_, hbacklog, ?_, ?_⟩
  · rw [Server.leave_registered]
    exact hregistered
  · simp only [if_neg hopen, Loop.goto]
    exact Loop.setConn_self
  · show Function.update t.home 5 (homeAfter os req 0 running.server.dftPath (t.home 5)) 5 = _
    rw [Function.update_self, hserver, h.home]

end OneClient

/-- The paths that are canonical there. -/
def filePath (path : Path) : Prop := path = literal "/srv" ∨ path = literal "/srv/f"

theorem fileOs_resolves : fileOs.Resolves filePath where
  fsCanonical _ _ _ h := .inr (Option.some.inj h).symm
  chdir _ p dir _ h := by
    simp only [fileOs] at h
    split_ifs at h with hp
    exact (Option.some.inj h).symm

theorem fileOs_back (cwd : Path) : fileOs.chdir cwd (literal "/srv") ≠ none := by
  simp [fileOs]

/-- The client has been accepted. -/
def acceptedFile : Tracked :=
  ⟨⟨⟨literal "/srv", literal "/srv", fun _ => literal "NULL", [5, 3], []⟩,
    Function.update (fun _ => none) 5 (some fileConn), [], .batch []⟩,
    Function.update (fun _ => none) 5 none⟩

/-- Only a request is restricted. -/
theorem inPlace_quiet (t : Tracked) (e : Event) (he : e.Quiet) : t.InPlace filePath e := by
  cases e with
  | request => exact absurd he id
  | dropped => exact absurd he id
  | badRequest => exact absurd he id
  | connect | pending | peer | poll | accept | acceptFailed | lost | send | receive | finish
  | exit => trivial

/-- The file is there for a request. -/
theorem Idle.inPlace {t : Tracked} {s : Server} {home : Option Path} {unread : List UInt8}
    {room : Nat} (h : Idle (Tracked.InPlace filePath) t s home unread room)
    (hdft : s.dftPath = literal "/srv")
    (hhome : ∀ dir, home = some dir → fileOs.fsExists s.cwd dir = some true) (req : Post) :
    Tracked.InPlace filePath ⟨t.loop.goto (.batch [5]), t.home⟩ (.request 5 req fileOs) := by
  refine ⟨fileOs_resolves, ?_, ?_⟩
  · show ∀ cwd, fileOs.chdir cwd t.loop.server.dftPath ≠ none
    rw [h.server, hdft]
    exact fileOs_back
  · show ∀ dir, t.home 5 = some dir → fileOs.fsExists t.loop.server.cwd dir = some true
    rw [h.server, h.home]
    exact hhome

/-- The server after the client has opened its session and changed to `f`. -/
def fileServer : Server :=
  Server.leave fileOs ((Server.leave fileOs (Server.setCwds
    ⟨literal "/srv", literal "/srv", fun _ => literal "NULL", [5, 3], []⟩ 5
      (literal "/srv"))).setCwds 5 (literal "/srv/f"))

/-- The session of the client at the file `f`. -/
theorem idle_file : ∃ t, Idle (Tracked.InPlace filePath) t fileServer (some (literal "/srv/f"))
    (Post.bytes ⟨listRequest, 0, []⟩ ++ []) (maxbuf - 12 - 12) := by
  have haccepted : Idle _ acceptedFile _ none fileConn.unread maxbuf :=
    idle_accepted inPlace_quiet fileConn.unread
  have ⟨opened, hopened⟩ := haccepted.answer ⟨openRequest, 0, []⟩ (Nat.zero_le _)
    (haccepted.inPlace rfl nofun _) rfl rfl rfl rfl (by decide) rfl
  have hhome : ∀ dir, homeAfter fileOs ⟨openRequest, 0, []⟩ 0 (literal "/srv") none = some dir →
      fileOs.fsExists (literal "/srv") dir = some true := by
    intro dir hdir
    rw [← Option.some.inj (show some (literal "/srv") = some dir from hdir)]
    decide
  exact hopened.answer ⟨cdRequest, 0, literal "f" ++ [0]⟩
    (show 2 ≤ maxbuf by decide) (hopened.inPlace rfl hhome _) rfl rfl rfl rfl (by decide) rfl

/-- The client's directory is `f` as long as `f` exists. -/
theorem workdir_isolated_file :
    ∃ t : Tracked, t.home 5 = some (literal "/srv/f") ∧ t.Isolated ∧
      ∀ fd req os t', Tracked.Step 3 t (.request fd req os) t' → os.Resolves filePath →
        ∀ dir, t.home fd = some dir →
          (t'.loop.server.cwd = dir ↔
            os.fsExists t.loop.server.cwd dir = some true ∨ dir = literal "/srv") := by
  have ⟨t, ht⟩ := idle_file
  have ⟨hisolated, hrequest⟩ := workdir_isolated_iff (.inl rfl) ht.reachable
  exact ⟨t, ht.home, hisolated, hrequest⟩

/-- When the file `f` has been removed, `ls` runs in `/srv`. -/
theorem cd_file_loses_home :
    ∃ t t' : Tracked, (Tracked.system 3 (literal "/srv")).Reachable t ∧
      Tracked.Step 3 t (.request 5 ⟨listRequest, 0, []⟩ plainOs) t' ∧ ¬ t'.Isolated := by
  have ⟨t, ht⟩ := idle_file
  have hdir : fileServer.handlerDir plainOs 5 = some (literal "/srv") := rfl
  have ⟨l, hstep, hphase, hserver, _, _⟩ := ht.request (Nat.zero_le _) hdir rfl
  refine ⟨_, ⟨l, t.home⟩, (ht.poll (Nat.zero_le _)).of_restrict, ⟨hstep, rfl⟩, ?_⟩
  intro hisolated
  have hcwd := hisolated.handling _ _ _ _ _ hphase (literal "/srv/f") ht.home
  rw [hserver] at hcwd
  exact absurd hcwd (by decide)

end NetLabs.Ftp
