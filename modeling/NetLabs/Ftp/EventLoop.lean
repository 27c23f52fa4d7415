import NetLabs.Ftp.Arrival
import NetLabs.Ftp.Exchange
import NetLabs.Ftp.Handlers
import NetLabs.Lib.Transition

/-!
# The event loop

The loop of `main` in `ftp_server.cpp` with all its clients: what has arrived
on every connection, the connections that wait for `accept`, and where in the
loop the server is.

* `Conn` is a connection, `Conn.Acts` is what its peer can do to it.
* `Phase` is the server's place: the rest of what `epoll_wait` has returned, or
  a handler that runs.  `recv_post` is one step that is possible when a whole
  post has arrived or the peer is gone, and so the server waits where no step
  is possible.
* `LoopStep` is one step of a client or of the server.
* `Loop.Orderly` is the invariant of all runs, `orderly_of_reachable`.
-/

namespace NetLabs.Ftp

open Lib

/-! ## Connections -/

/-- A connection on the server's side. -/
structure Conn where
  /-- What has arrived and has not been read. -/
  unread : List UInt8
  /-- The peer has closed the connection, or it is broken. -/
  ended : Bool
  /-- The number of bytes that can be sent without waiting for the peer. -/
  room : Nat
  /-- A `recv_post` on it has failed. -/
  failed : Bool
  deriving DecidableEq, Repr

/-- What a peer does. -/
inductive Conn.Act where
  | sends (bytes : List UInt8)
  /-- It reads, so that there is room for `n` bytes more. -/
  | reads (n : Nat)
  | leaves
  deriving DecidableEq, Repr

/-- A connection before and after its peer has done something.  What has arrived
before the peer goes can still be read. -/
inductive Conn.Acts : Conn → Conn.Act → Conn → Prop
  | sends (c : Conn) (bytes : List UInt8) (hopen : c.ended = false) :
      Acts c (.sends bytes) { c with unread := c.unread ++ bytes }
  | reads (c : Conn) (n : Nat) : Acts c (.reads n) { c with room := c.room + n }
  | leaves (c : Conn) : Acts c .leaves { c with ended := true }

/-! ## The state of the loop -/

/-- Where the server is. -/
inductive Phase where
  /-- The descriptors that `epoll_wait` has returned and the loop has not got
  to.  Without any the server is in `epoll_wait`. -/
  | batch (todo : List Int)
  /-- A handler runs for a request on `fd`. -/
  | handling (fd : Int) (req : Post) (os : Os) (prog : Proc Post (Int × Server))
      (todo : List Int)
  | exited

/-- The descriptors that the server has not finished with. -/
@[simp] def Phase.todo : Phase → List Int
  | batch todo => todo
  | handling fd _ _ _ todo => fd :: todo
  | exited => []

/-- The descriptor that the server reads in `recv_post`. -/
def Phase.receiving : Phase → Option Int
  | batch (fd :: _) => some fd
  | handling fd _ _ (.recv _) _ => some fd
  | _ => none

structure Loop where
  server : Server
  conns : Int → Option Conn
  /-- The connections that wait for `accept`. -/
  backlog : List Conn
  phase : Phase

def maxEpoll : Nat := 64

/-- `epoll_ctl` adds the descriptor. -/
def Server.register (s : Server) (fd : Int) : Server := { s with registered := fd :: s.registered }

namespace Loop

/-- The globals at the start of the loop, in the directory that the server has
been started in. -/
def start (listenfd : Int) (dir : Path) : Loop where
  server := ⟨dir, dir, fun _ => literal "NULL", [listenfd], []⟩
  conns _ := none
  backlog := []
  phase := .batch []

def setConn (l : Loop) (fd : Int) (c : Option Conn) : Loop :=
  { l with conns := Function.update l.conns fd c }

def goto (l : Loop) (phase : Phase) : Loop := { l with phase := phase }

/-- `epoll_wait` has something to report on the descriptor. -/
def Ready (listenfd : Int) (l : Loop) (fd : Int) : Prop :=
  if fd = listenfd then l.backlog ≠ []
  else ∃ c, l.conns fd = some c ∧ (c.unread ≠ [] ∨ c.ended = true)

/-- What `epoll_wait` returns: registered descriptors that are ready, all of
them unless there are more than `MAXEPOLL`. -/
structure Polls (listenfd : Int) (l : Loop) (fds : List Int) : Prop where
  some : fds ≠ []
  nodup : fds.Nodup
  ready : ∀ fd ∈ fds, fd ∈ l.server.registered ∧ l.Ready listenfd fd
  le_max : fds.length ≤ maxEpoll
  all : fds.length < maxEpoll → ∀ fd ∈ l.server.registered, l.Ready listenfd fd → fd ∈ fds

end Loop

/-! ## Steps -/

inductive Event where
  /-- A client connects. -/
  | connect (c : Conn)
  /-- The peer of the connection at a place in the backlog does something. -/
  | pending (place : Nat) (act : Conn.Act)
  /-- The peer of an accepted connection does something. -/
  | peer (fd : Int) (act : Conn.Act)
  | poll (fds : List Int)
  | accept (fd : Int) (added : Bool)
  | acceptFailed
  /-- `recv_post` on the descriptor fails. -/
  | lost (fd : Int)
  /-- A request on the descriptor reaches its handler. -/
  | request (fd : Int) (req : Post) (os : Os)
  /-- A request is dropped, as `chdir` to the client's directory fails. -/
  | dropped (fd : Int) (os : Os)
  | send (ok : Bool)
  | receive (m : Option Post)
  /-- The handler returns, and the server goes back to `dft_path`. -/
  | finish
  /-- A request ends the process: `fs::exists` throws on the client's directory, or
  there is no handler for the type. -/
  | badRequest (fd : Int) (req : Post) (os : Os)
  /-- The process ends in another way. -/
  | exit

/-- A client takes the step. -/
def Event.byClient : Event → Bool
  | connect _ => true
  | pending _ _ => true
  | peer _ _ => true
  | _ => false

inductive LoopStep (listenfd : Int) : Loop → Event → Loop → Prop
  | connect {l : Loop} (c : Conn) (hnew : c.failed = false) :
      LoopStep listenfd l (.connect c) { l with backlog := l.backlog ++ [c] }
  | pending {l : Loop} {before behind : List Conn} {act : Conn.Act} {c c' : Conn}
      (hacts : c.Acts act c') (hbacklog : l.backlog = before ++ c :: behind) :
      LoopStep listenfd l (.pending before.length act) { l with backlog := before ++ c' :: behind }
  | peer {l : Loop} {fd : Int} {act : Conn.Act} {c c' : Conn} (hacts : c.Acts act c')
      (hconn : l.conns fd = some c) :
      LoopStep listenfd l (.peer fd act) (l.setConn fd (some c'))
  | poll {l : Loop} {fds : List Int} (hphase : l.phase = .batch [])
      (hpolls : l.Polls listenfd fds) :
      LoopStep listenfd l (.poll fds) (l.goto (.batch fds))
  | accept {l : Loop} {fd : Int} {added : Bool} {c : Conn} {backlog : List Conn}
      {todo : List Int} (hphase : l.phase = .batch (listenfd :: todo))
      (hbacklog : l.backlog = c :: backlog) (hfresh : l.conns fd = none) (hne : fd ≠ listenfd) :
      LoopStep listenfd l (.accept fd added)
        ⟨if added then l.server.register fd else l.server,
          Function.update l.conns fd (some c), backlog, .batch todo⟩
  | acceptFailed {l : Loop} {todo : List Int} (hphase : l.phase = .batch (listenfd :: todo)) :
      LoopStep listenfd l .acceptFailed (l.goto (.batch todo))
  | lost {l : Loop} {fd : Int} {c : Conn} {todo : List Int}
      (hphase : l.phase = .batch (fd :: todo)) (hne : fd ≠ listenfd)
      (hconn : l.conns fd = some c) (hended : c.ended = true)
      (harrived : arrived c.unread = .unfinished) :
      LoopStep listenfd l (.lost fd)
        ((l.setConn fd (some { c with unread := [], failed := true })).goto (.batch todo))
  | request {l : Loop} {fd : Int} {req : Post} {os : Os} {c : Conn} {rest : List UInt8}
      {dir : Path} {func : Server.Handler} {todo : List Int}
      (hphase : l.phase = .batch (fd :: todo)) (hne : fd ≠ listenfd)
      (hconn : l.conns fd = some c) (harrived : arrived c.unread = .post req rest)
      (hdir : l.server.handlerDir os fd = some dir)
      (hfunc : Server.handler os req.type = some func) :
      LoopStep listenfd l (.request fd req os)
        ⟨{ l.server with cwd := dir }, Function.update l.conns fd (some { c with unread := rest }),
          l.backlog, .handling fd req os
            (func fd (cString req.payload) { l.server with cwd := dir }) todo⟩
  | dropped {l : Loop} {fd : Int} {req : Post} {c : Conn} {rest : List UInt8} {todo : List Int}
      (os : Os) (hphase : l.phase = .batch (fd :: todo)) (hne : fd ≠ listenfd)
      (hconn : l.conns fd = some c) (harrived : arrived c.unread = .post req rest)
      (hexists : os.fsExists l.server.cwd (l.server.cwds (fd2ind fd)) = some true)
      (hchdir : os.chdir l.server.cwd (l.server.cwds (fd2ind fd)) = none) :
      LoopStep listenfd l (.dropped fd os)
        ((l.setConn fd (some { c with unread := rest })).goto (.batch todo))
  | send {l : Loop} {fd : Int} {req m : Post} {os : Os} {next : Bool → Proc Post (Int × Server)}
      {c : Conn} {todo : List Int} (hphase : l.phase = .handling fd req os (.send m next) todo)
      (hconn : l.conns fd = some c) (hroom : m.bytes.length ≤ c.room) :
      LoopStep listenfd l (.send true)
        ((l.setConn fd (some { c with room := c.room - m.bytes.length })).goto
          (.handling fd req os (next true) todo))
  | sendFailed {l : Loop} {fd : Int} {req m : Post} {os : Os}
      {next : Bool → Proc Post (Int × Server)} {c : Conn} {todo : List Int}
      (hphase : l.phase = .handling fd req os (.send m next) todo)
      (hconn : l.conns fd = some c) (hended : c.ended = true) :
      LoopStep listenfd l (.send false) (l.goto (.handling fd req os (next false) todo))
  | receive {l : Loop} {fd : Int} {req m : Post} {os : Os}
      {next : Option Post → Proc Post (Int × Server)} {c : Conn} {rest : List UInt8}
      {todo : List Int} (hphase : l.phase = .handling fd req os (.recv next) todo)
      (hconn : l.conns fd = some c) (harrived : arrived c.unread = .post m rest) :
      LoopStep listenfd l (.receive (some m))
        ((l.setConn fd (some { c with unread := rest })).goto
          (.handling fd req os (next (some m)) todo))
  | receiveFailed {l : Loop} {fd : Int} {req : Post} {os : Os}
      {next : Option Post → Proc Post (Int × Server)} {c : Conn} {todo : List Int}
      (hphase : l.phase = .handling fd req os (.recv next) todo)
      (hconn : l.conns fd = some c) (hended : c.ended = true)
      (harrived : arrived c.unread = .unfinished) :
      LoopStep listenfd l (.receive none)
        ((l.setConn fd (some { c with unread := [], failed := true })).goto
          (.handling fd req os (next none) todo))
  /-- `do_quit` has closed the connection when the descriptor has left the epoll
  set and `close` has worked. -/
  | finish {l : Loop} {fd : Int} {req : Post} {os : Os} {code : Int} {s : Server}
      {todo : List Int} (hphase : l.phase = .handling fd req os (.done (code, s)) todo) :
      LoopStep listenfd l .finish
        ⟨Server.leave os s,
          if fd ∉ s.registered ∧ os.close fd = true then Function.update l.conns fd none
          else l.conns,
          l.backlog, .batch todo⟩
  /-- The payload overruns the buffer. -/
  | overrun {l : Loop} {fd : Int} {c : Conn} (hreceiving : l.phase.receiving = some fd)
      (hconn : l.conns fd = some c) (harrived : arrived c.unread = .overrun) :
      LoopStep listenfd l .exit (l.goto .exited)
  | badRequest {l : Loop} {fd : Int} {req : Post} {c : Conn} {rest : List UInt8}
      {todo : List Int} (os : Os) (hphase : l.phase = .batch (fd :: todo)) (hne : fd ≠ listenfd)
      (hconn : l.conns fd = some c) (harrived : arrived c.unread = .post req rest)
      (hbad : os.fsExists l.server.cwd (l.server.cwds (fd2ind fd)) = none ∨
        l.server.handlerDir os fd ≠ none ∧ Server.handler os req.type = none) :
      LoopStep listenfd l (.badRequest fd req os) (l.goto .exited)
  /-- The handler throws. -/
  | halt {l : Loop} {fd : Int} {req : Post} {os : Os} {todo : List Int}
      (hphase : l.phase = .handling fd req os .halt todo) :
      LoopStep listenfd l .exit (l.goto .exited)
  /-- `SIGPIPE` ends a process that sends to a peer that is gone. -/
  | sigpipe {l : Loop} {fd : Int} {req m : Post} {os : Os}
      {next : Bool → Proc Post (Int × Server)} {c : Conn} {todo : List Int}
      (hphase : l.phase = .handling fd req os (.send m next) todo)
      (hconn : l.conns fd = some c) (hended : c.ended = true) :
      LoopStep listenfd l .exit (l.goto .exited)

/-- The server in its directory, with a listening socket. -/
def eventLoop (listenfd : Int) (dir : Path) : System Loop Event where
  init := (· = Loop.start listenfd dir)
  step := LoopStep listenfd

/-! ## What holds in every run -/

/-- The program is what is left of the handler of a request. -/
def Remains (os : Os) (fd : Int) (req : Post) (s : Server)
    (prog : Proc Post (Int × Server)) : Prop :=
  ∃ func, Server.handler os req.type = some func ∧ (func fd (cString req.payload) s).Leaves prog

section Remains

variable {os : Os} {fd : Int} {req m : Post} {s : Server}

theorem Remains.send {next : Bool → Proc Post (Int × Server)} (ok : Bool)
    (h : Remains os fd req s (.send m next)) : Remains os fd req s (next ok) := by
  have ⟨func, hfunc, hleaves⟩ := h
  exact ⟨func, hfunc, hleaves.send ok⟩

theorem Remains.recv {next : Option Post → Proc Post (Int × Server)} (m : Option Post)
    (h : Remains os fd req s (.recv next)) : Remains os fd req s (next m) := by
  have ⟨func, hfunc, hleaves⟩ := h
  exact ⟨func, hfunc, hleaves.recv m⟩

/-- What a handler returns at the end. -/
theorem Remains.returns {x : Int × Server} {Q : Int × Server → Prop}
    (h : Remains os fd req s (.done x))
    (hQ : ∀ func, Server.handler os req.type = some func →
      (func fd (cString req.payload) s).Returns Q) : Q x := by
  have ⟨func, hfunc, hleaves⟩ := h
  exact hleaves.done (hQ func hfunc)

end Remains

/-- The server works on different connections, which are open, and the handler
that runs has been started in the current state. -/
structure Loop.Orderly (listenfd : Int) (l : Loop) : Prop where
  listen : l.conns listenfd = none
  nodup : l.phase.todo.Nodup
  opened : ∀ fd ∈ l.phase.todo, fd ≠ listenfd → l.conns fd ≠ none
  remains : ∀ fd req os prog todo, l.phase = .handling fd req os prog todo →
    fd ≠ listenfd ∧ Remains os fd req l.server prog

namespace Loop

variable {listenfd : Int} {dir : Path} {l l' : Loop} {e : Event}

theorem setConn_none_iff {fd x : Int} {c c' : Conn} (hconn : l.conns fd = some c) :
    (l.setConn fd (some c')).conns x = none ↔ l.conns x = none := by
  by_cases hx : x = fd
  · subst hx
    simp [setConn, hconn]
  · simp [setConn, hx]

theorem setConn_self {fd : Int} {c : Option Conn} : (l.setConn fd c).conns fd = c := by
  simp [setConn]

theorem setConn_other {fd x : Int} {c : Option Conn} (hx : x ≠ fd) :
    (l.setConn fd c).conns x = l.conns x := by
  simp [setConn, hx]

/-- The end of a handler concerns its own connection only. -/
theorem conns_finish_other {fd x : Int} {s : Server} {os : Os} (hx : x ≠ fd) :
    (if fd ∉ s.registered ∧ os.close fd = true then Function.update l.conns fd none
      else l.conns) x = l.conns x := by
  split
  · exact setConn_other hx
  · rfl

/-- A step that opens and closes nothing and takes nothing up. -/
theorem Orderly.of_same (h : l.Orderly listenfd)
    (hconns : ∀ x, l'.conns x = none ↔ l.conns x = none)
    (htodo : l'.phase.todo <:+ l.phase.todo)
    (hremains : ∀ fd req os prog todo, l'.phase = .handling fd req os prog todo →
      fd ≠ listenfd ∧ Remains os fd req l'.server prog) : l'.Orderly listenfd where
  listen := (hconns listenfd).mpr h.listen
  nodup := h.nodup.sublist htodo.sublist
  opened fd hfd hne hnone := h.opened fd (htodo.subset hfd) hne ((hconns fd).mp hnone)
  remains := hremains

/-- A handler starts or goes on: its descriptor is still the head of the batch. -/
theorem Orderly.of_remains (h : l.Orderly listenfd) {fd : Int} {req : Post} {os : Os}
    {prog : Proc Post (Int × Server)} {todo : List Int}
    (hconns : ∀ x, l'.conns x = none ↔ l.conns x = none) (htodo : l.phase.todo = fd :: todo)
    (hphase' : l'.phase = .handling fd req os prog todo) (hne : fd ≠ listenfd)
    (hremains : Remains os fd req l'.server prog) : l'.Orderly listenfd := by
  refine h.of_same hconns ?_ ?_
  · rw [hphase', htodo]
    exact List.suffix_refl _
  · intro fd' req' os' prog' todo' hhandling
    rw [hphase'] at hhandling
    cases hhandling
    exact ⟨hne, hremains⟩

theorem orderly_start : (start listenfd dir).Orderly listenfd :=
  ⟨rfl, List.nodup_nil, nofun, nofun⟩

/-- Only one descriptor is ready. -/
theorem polls_one {fd : Int} (hregistered : fd ∈ l.server.registered)
    (hready : l.Ready listenfd fd)
    (honly : ∀ x ∈ l.server.registered, l.Ready listenfd x → x = fd) :
    l.Polls listenfd [fd] where
  some := List.cons_ne_nil _ _
  nodup := List.nodup_cons.mpr ⟨List.not_mem_nil, List.nodup_nil⟩
  ready x hx := by
    rw [List.mem_singleton.mp hx]
    exact ⟨hregistered, hready⟩
  le_max := show 1 ≤ maxEpoll by decide
  all _ x hx hxready := List.mem_singleton.mpr (honly x hx hxready)

theorem ready_of_backlog (h : l.backlog ≠ []) : l.Ready listenfd listenfd := by
  rw [Ready, if_pos rfl]
  exact h

theorem ready_of_conn {fd : Int} {c : Conn} (hne : fd ≠ listenfd) (hconn : l.conns fd = some c)
    (h : c.unread ≠ [] ∨ c.ended = true) : l.Ready listenfd fd := by
  rw [Ready, if_neg hne]
  exact ⟨c, hconn, h⟩

/-- There is one client, and nobody waits for `accept`. -/
theorem polls_client {fd : Int} {c : Conn} (hregistered : l.server.registered = [fd, listenfd])
    (hbacklog : l.backlog = []) (hne : fd ≠ listenfd) (hconn : l.conns fd = some c)
    (hunread : c.unread ≠ []) : l.Polls listenfd [fd] := by
  refine polls_one ?_ (ready_of_conn hne hconn (.inl hunread)) fun x hx hready => ?_
  · rw [hregistered]
    exact List.mem_cons_self
  · rw [hregistered] at hx
    rcases List.mem_cons.mp hx with hclient | hlisten
    · exact hclient
    · rw [Ready, if_pos (List.mem_singleton.mp hlisten)] at hready
      exact absurd hbacklog hready

/-- With the first connection only the listening socket is ready. -/
theorem polls_start (c : Conn) :
    Polls listenfd { start listenfd dir with backlog := [c] } [listenfd] := by
  apply polls_one
  · exact List.mem_singleton_self listenfd
  · exact ready_of_backlog (List.cons_ne_nil _ _)
  · intro x hx _
    exact List.mem_singleton.mp hx

/-- Every step keeps the invariant. -/
theorem Orderly.step (h : l.Orderly listenfd) (hstep : LoopStep listenfd l e l') :
    l'.Orderly listenfd := by
  cases hstep with
  | connect c hnew => exact h.of_same (fun _ => .rfl) (List.suffix_refl _) h.remains
  | pending hacts hbacklog => exact h.of_same (fun _ => .rfl) (List.suffix_refl _) h.remains
  | peer hacts hconn =>
    exact h.of_same (fun _ => setConn_none_iff hconn) (List.suffix_refl _) h.remains
  | poll hphase hpolls =>
    refine ⟨h.listen, hpolls.nodup, fun fd hfd hne hnone => ?_, nofun⟩
    have hready := (hpolls.ready fd hfd).2
    rw [Ready, if_neg hne] at hready
    have ⟨c, hconn, _⟩ := hready
    exact nomatch hconn.symm.trans hnone
  | @accept fd added c backlog todo hphase hbacklog hfresh hne =>
    have hnodup := h.nodup
    rw [hphase] at hnodup
    refine ⟨(setConn_other hne.symm).trans h.listen, hnodup.of_cons, fun x hx hxne hnone => ?_,
      nofun⟩
    have hopened := h.opened x (by rw [hphase]; exact List.mem_cons_of_mem _ hx) hxne
    by_cases heq : x = fd
    · exact hopened (heq ▸ hfresh)
    · exact hopened ((setConn_other heq).symm.trans hnone)
  | acceptFailed hphase =>
    refine h.of_same (fun _ => .rfl) ?_ nofun
    rw [hphase]
    exact List.suffix_cons _ _
  | lost hphase hne hconn hended harrived =>
    refine h.of_same (fun _ => setConn_none_iff hconn) ?_ nofun
    rw [hphase]
    exact List.suffix_cons _ _
  | @request fd req os c rest dir func todo hphase hne hconn harrived hdir hfunc =>
    exact h.of_remains (fun _ => setConn_none_iff hconn) (congrArg Phase.todo hphase) rfl hne
      ⟨func, hfunc, .all⟩
  | dropped os hphase hne hconn harrived hexists hchdir =>
    refine h.of_same (fun _ => setConn_none_iff hconn) ?_ nofun
    rw [hphase]
    exact List.suffix_cons _ _
  | send hphase hconn hroom =>
    have ⟨hne, hremains⟩ := h.remains _ _ _ _ _ hphase
    exact h.of_remains (fun _ => setConn_none_iff hconn) (congrArg Phase.todo hphase) rfl hne
      (hremains.send true)
  | sendFailed hphase hconn hended =>
    have ⟨hne, hremains⟩ := h.remains _ _ _ _ _ hphase
    exact h.of_remains (fun _ => .rfl) (congrArg Phase.todo hphase) rfl hne (hremains.send false)
  | receive hphase hconn harrived =>
    have ⟨hne, hremains⟩ := h.remains _ _ _ _ _ hphase
    exact h.of_remains (fun _ => setConn_none_iff hconn) (congrArg Phase.todo hphase) rfl hne
      (hremains.recv _)
  | receiveFailed hphase hconn hended harrived =>
    have ⟨hne, hremains⟩ := h.remains _ _ _ _ _ hphase
    exact h.of_remains (fun _ => setConn_none_iff hconn) (congrArg Phase.todo hphase) rfl hne
      (hremains.recv _)
  | @finish fd req os code s todo hphase =>
    have hnodup := h.nodup
    rw [hphase] at hnodup
    have hne := (h.remains _ _ _ _ _ hphase).1
    refine ⟨(conns_finish_other hne.symm).trans h.listen, hnodup.of_cons, fun x hx hxne hnone => ?_, nofun⟩
    have hxfd : x ≠ fd := fun heq => (List.nodup_cons.mp hnodup).1 (heq ▸ hx)
    refine h.opened x ?_ hxne ((conns_finish_other hxfd).symm.trans hnone)
    rw [hphase]
    exact List.mem_cons_of_mem _ hx
  | overrun hreceiving hconn harrived => exact h.of_same (fun _ => .rfl) List.nil_suffix nofun
  | badRequest os hphase hne hconn harrived hbad =>
    exact h.of_same (fun _ => .rfl) List.nil_suffix nofun
  | halt hphase => exact h.of_same (fun _ => .rfl) List.nil_suffix nofun
  | sigpipe hphase hconn hended => exact h.of_same (fun _ => .rfl) List.nil_suffix nofun

/-- What a handler that returns has kept. -/
theorem Orderly.framed (h : l.Orderly listenfd) {fd : Int} {req : Post} {os : Os} {code : Int}
    {s : Server} {todo : List Int}
    (hphase : l.phase = .handling fd req os (.done (code, s)) todo) :
    Server.Framed os fd l.server s := by
  have ⟨_, hremains⟩ := h.remains _ _ _ _ _ hphase
  exact hremains.returns fun _ hfunc => Server.handler_framed hfunc

theorem orderly_of_reachable (h : (eventLoop listenfd dir).Reachable l) : l.Orderly listenfd := by
  refine h.invariant ?_ fun _ _ _ _ hl hstep => hl.step hstep
  rintro _ rfl
  exact orderly_start

end Loop

end NetLabs.Ftp
