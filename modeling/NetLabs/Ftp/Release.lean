import NetLabs.Ftp.EventLoop
import NetLabs.Ftp.InStep

/-!
# Connections that end

Only `do_quit` closes a connection.  When `recv_post` fails the loop goes on
with the next descriptor, and the connection stays open and registered.

* `Loop.Balanced` says that the registered descriptors are those of the live
  connections, `Loop.Released` that a descriptor has been given up.
* `Loop.Accounted` is the invariant of the runs in which `epoll_ctl` and `close`
  work, and `Accounted.failed_stays` keeps a connection that has failed.
* `connections_balanced_iff`: after a run the loop is balanced exactly when no `recv_post`
  has failed in it.
-/

namespace NetLabs.Ftp

open Lib

/-- `epoll_ctl` adds the descriptor, and `close` works. -/
def Event.Works : Event → Prop
  | accept _ added => added = true
  | request fd _ os => os.close fd = true
  | _ => True

/-- A `recv_post` fails, in the loop or in `do_put`. -/
def Event.Fails : Event → Prop
  | lost _ => True
  | receive none => True
  | _ => False

namespace Loop

/-- The descriptor is closed and not registered, and its entry is reset. -/
structure Released (l : Loop) (fd : Int) : Prop where
  closed : l.conns fd = none
  unregistered : fd ∉ l.server.registered
  reset : l.server.cwds (fd2ind fd) = literal "NULL"

/-- The registered descriptors, except the listening one, are those of the open
connections on which no `recv_post` has failed. -/
def Balanced (listenfd : Int) (l : Loop) : Prop :=
  ∀ fd, fd ≠ listenfd →
    (fd ∈ l.server.registered ↔ ∃ c, l.conns fd = some c ∧ c.failed = false)

/-- A connection on which a `recv_post` has failed is open. -/
def Leaks (l : Loop) (fd : Int) : Prop := ∃ c, l.conns fd = some c ∧ c.failed = true

/-- The open connections are registered, and what is known of those that have
failed. -/
structure Accounted (listenfd : Int) (l : Loop) : Prop where
  registered : ∀ fd, fd ≠ listenfd → (fd ∈ l.server.registered ↔ l.conns fd ≠ none)
  backlog : ∀ c ∈ l.backlog, c.failed = false
  ended : ∀ fd c, l.conns fd = some c → c.failed = true → c.ended = true ∧ c.unread = []
  handled : ∀ fd req os prog todo, l.phase = .handling fd req os prog todo →
    os.close fd = true ∧
      ∀ c, l.conns fd = some c → c.failed = true → type2ind req.type ≠ 6

variable {listenfd : Int} {dir : Path} {l l' : Loop} {e : Event} {fd : Int}

theorem conns_of_setConn {x : Int} {c c' : Conn} (h : (l.setConn fd (some c')).conns x = some c) :
    x = fd ∧ c = c' ∨ x ≠ fd ∧ l.conns x = some c := by
  by_cases hx : x = fd
  · subst hx
    rw [setConn_self] at h
    exact .inl ⟨rfl, (Option.some.inj h).symm⟩
  · rw [setConn_other hx] at h
    exact .inr ⟨hx, h⟩

theorem accounted_start : (start listenfd dir).Accounted listenfd where
  registered fd hne := by simp [start, hne]
  backlog := nofun
  ended := nofun
  handled := nofun

theorem failed_of_acts {act : Conn.Act} {c c' : Conn} (h : c.Acts act c') : c'.failed = c.failed := by
  cases h <;> rfl

/-- What has ended and been read stays so. -/
theorem ended_of_acts {act : Conn.Act} {c c' : Conn} (h : c.Acts act c')
    (hended : c.ended = true ∧ c.unread = []) : c'.ended = true ∧ c'.unread = [] := by
  cases h with
  | sends bytes hopen => exact nomatch hended.1.symm.trans hopen
  | reads n => exact hended
  | leaves => exact ⟨rfl, hended.2⟩

/-- A step that opens, closes and registers nothing. -/
theorem Accounted.of_setConn (h : l.Accounted listenfd) {c c' : Conn} (hconn : l.conns fd = some c)
    (hconns : l'.conns = (l.setConn fd (some c')).conns)
    (hregistered : l'.server.registered = l.server.registered)
    (hbacklog : l'.backlog = l.backlog)
    (hended : c'.failed = true → c'.ended = true ∧ c'.unread = [])
    (hhandled : ∀ fd req os prog todo, l'.phase = .handling fd req os prog todo →
      os.close fd = true ∧
        ∀ c, l'.conns fd = some c → c.failed = true → type2ind req.type ≠ 6) :
    l'.Accounted listenfd where
  registered x hne := by
    rw [hregistered, hconns, h.registered x hne, ne_eq, ne_eq, setConn_none_iff hconn]
  backlog := hbacklog ▸ h.backlog
  ended x d hd hfailed := by
    rw [hconns] at hd
    rcases conns_of_setConn hd with ⟨_, rfl⟩ | ⟨_, hd⟩
    · exact hended hfailed
    · exact h.ended x d hd hfailed
  handled := hhandled

theorem handled_of_setConn {os : Os} {req : Post} {c' : Conn} (hclose : os.close fd = true)
    (hquit : c'.failed = true → type2ind req.type ≠ 6) :
    os.close fd = true ∧ ∀ c, (l.setConn fd (some c')).conns fd = some c → c.failed = true →
      type2ind req.type ≠ 6 := by
  refine ⟨hclose, fun c hc => ?_⟩
  rw [setConn_self] at hc
  cases hc
  exact hquit

/-- A step that changes the place only. -/
theorem Accounted.of_goto (h : l.Accounted listenfd) {phase : Phase}
    (hhandled : ∀ fd req os prog todo, phase = .handling fd req os prog todo →
      os.close fd = true ∧
        ∀ c, l.conns fd = some c → c.failed = true → type2ind req.type ≠ 6) :
    (l.goto phase).Accounted listenfd :=
  ⟨h.registered, h.backlog, h.ended, hhandled⟩

/-- A connection that still has something to be read has not failed. -/
theorem Accounted.not_failed (h : l.Accounted listenfd) {c : Conn} {p : Post} {rest : List UInt8}
    (hconn : l.conns fd = some c) (harrived : arrived c.unread = .post p rest) :
    c.failed = false := by
  by_contra hfailed
  have hempty := (h.ended fd c hconn (by simpa using hfailed)).2
  rw [hempty, not_arrived_nil] at harrived
  cases harrived

/-- An accepted connection that `epoll_ctl` adds. -/
theorem Accounted.accept (h : l.Accounted listenfd) {added : Bool} {c : Conn} {backlog : List Conn}
    {todo : List Int} (hadded : added = true) (hbacklog : l.backlog = c :: backlog) :
    Accounted listenfd ⟨if added then l.server.register fd else l.server,
      Function.update l.conns fd (some c), backlog, .batch todo⟩ := by
  have hold := hbacklog ▸ h.backlog
  have hlive := hold c List.mem_cons_self
  refine ⟨fun x hx => ?_, fun d hd => hold d (List.mem_cons_of_mem _ hd), fun x d hd hfailed => ?_,
    nofun⟩
  · show x ∈ (if added then l.server.register fd else l.server).registered ↔
      (l.setConn fd (some c)).conns x ≠ none
    rw [if_pos hadded, Server.register, List.mem_cons]
    by_cases hxfd : x = fd
    · subst hxfd
      simp [setConn_self]
    · rw [setConn_other hxfd, ← h.registered x hx]
      simp [hxfd]
  · rcases conns_of_setConn hd with ⟨_, rfl⟩ | ⟨_, hd⟩
    · exact nomatch hfailed.symm.trans hlive
    · exact h.ended x d hd hfailed

/-- A handler that returns has released its connection, or changed nothing in the
accounts. -/
theorem Accounted.finish (h : l.Accounted listenfd) (hl : l.Orderly listenfd) {req : Post}
    {os : Os} {code : Int} {s : Server} {todo : List Int}
    (hphase : l.phase = .handling fd req os (.done (code, s)) todo) :
    Accounted listenfd ⟨Server.leave os s,
      if fd ∉ s.registered ∧ os.close fd = true then Function.update l.conns fd none
        else l.conns, l.backlog, .batch todo⟩ := by
  have ⟨hclose, _⟩ := h.handled _ _ _ _ _ hphase
  have hne := (hl.remains _ _ _ _ _ hphase).1
  have hframed : Server.Framed os fd l.server s := hl.framed hphase
  have hmem : fd ∈ l.server.registered := by
    rw [h.registered fd hne]
    exact hl.opened fd (by rw [hphase]; exact List.mem_cons_self) hne
  rcases hframed.registered with hsame | hgone
  · have hin : ¬ (fd ∉ s.registered ∧ os.close fd = true) := by
      rw [hsame]
      exact fun hout => hout.1 hmem
    rw [if_neg hin]
    refine ⟨fun x hx => ?_, h.backlog, h.ended, nofun⟩
    rw [Server.leave_registered, hsame]
    exact h.registered x hx
  · have hout : fd ∉ s.registered ∧ os.close fd = true := by
      rw [hgone, Server.mem_unregister]
      exact ⟨fun hin => hin.2 rfl, hclose⟩
    rw [if_pos hout]
    refine ⟨fun x hx => ?_, h.backlog, fun x d hd hfailed => ?_, nofun⟩
    · rw [Server.leave_registered, hgone, Server.mem_unregister, h.registered x hx]
      by_cases hxfd : x = fd
      · simp [hxfd]
      · simp [hxfd]
    · by_cases hxfd : x = fd
      · simp [hxfd] at hd
      · exact h.ended x d (by simpa [hxfd] using hd) hfailed

/-- Every step in which the system calls work keeps the accounts. -/
theorem Accounted.step (h : l.Accounted listenfd) (hl : l.Orderly listenfd)
    (hworks : e.Works) (hstep : LoopStep listenfd l e l') : l'.Accounted listenfd := by
  cases hstep with
  | connect c hnew =>
    refine ⟨h.registered, fun d hd => ?_, h.ended, h.handled⟩
    rcases List.mem_append.mp hd with hd | hd
    · exact h.backlog d hd
    · exact List.mem_singleton.mp hd ▸ hnew
  | @pending before behind act c c' hacts hbacklog =>
    refine ⟨h.registered, fun d hd => ?_, h.ended, h.handled⟩
    have hold := hbacklog ▸ h.backlog
    rcases List.mem_append.mp hd with hd | hd
    · exact hold d (List.mem_append_left _ hd)
    · rcases List.mem_cons.mp hd with rfl | hd
      · rw [failed_of_acts hacts]
        exact hold c (by simp)
      · exact hold d (List.mem_append_right _ (List.mem_cons_of_mem _ hd))
  | @peer fd act c c' hacts hconn =>
    refine h.of_setConn hconn rfl rfl rfl (fun hfailed => ?_) fun x req os prog todo hphase => ?_
    · rw [failed_of_acts hacts] at hfailed
      exact ended_of_acts hacts (h.ended fd c hconn hfailed)
    · have ⟨hclose, hquit⟩ := h.handled x req os prog todo hphase
      refine ⟨hclose, fun d hd hfailed => ?_⟩
      rcases conns_of_setConn hd with ⟨rfl, rfl⟩ | ⟨_, hd⟩
      · exact hquit c hconn (failed_of_acts hacts ▸ hfailed)
      · exact hquit d hd hfailed
  | poll hphase hpolls => exact h.of_goto nofun
  | accept hphase hbacklog hfresh hne => exact h.accept hworks hbacklog
  | acceptFailed hphase => exact h.of_goto nofun
  | lost hphase hne hconn hended harrived =>
    exact h.of_setConn hconn rfl rfl rfl (fun _ => ⟨hended, rfl⟩) nofun
  | @request fd req os c rest dir func todo hphase hne hconn harrived hdir hfunc =>
    have hlive := h.not_failed hconn harrived
    refine h.of_setConn hconn rfl rfl rfl (fun hfailed => nomatch hfailed.symm.trans hlive) ?_
    rintro _ _ _ _ _ ⟨⟩
    exact handled_of_setConn hworks fun hfailed => nomatch hfailed.symm.trans hlive
  | dropped os hphase hne hconn harrived hexists hchdir =>
    have hlive := h.not_failed hconn harrived
    exact h.of_setConn hconn rfl rfl rfl (fun hfailed => nomatch hfailed.symm.trans hlive) nofun
  | send hphase hconn hroom =>
    have ⟨hclose, hquit⟩ := h.handled _ _ _ _ _ hphase
    have hended := h.ended _ _ hconn
    have hother := hquit _ hconn
    refine h.of_setConn hconn rfl rfl rfl hended ?_
    rintro _ _ _ _ _ ⟨⟩
    exact handled_of_setConn hclose hother
  | sendFailed hphase hconn hended =>
    refine h.of_goto ?_
    rintro _ _ _ _ _ ⟨⟩
    exact h.handled _ _ _ _ _ hphase
  | receive hphase hconn harrived =>
    have hlive := h.not_failed hconn harrived
    have ⟨hclose, _⟩ := h.handled _ _ _ _ _ hphase
    refine h.of_setConn hconn rfl rfl rfl (fun hfailed => nomatch hfailed.symm.trans hlive) ?_
    rintro _ _ _ _ _ ⟨⟩
    exact handled_of_setConn hclose fun hfailed => nomatch hfailed.symm.trans hlive
  | receiveFailed hphase hconn hended harrived =>
    have ⟨hclose, _⟩ := h.handled _ _ _ _ _ hphase
    have ⟨_, func, hfunc, hleaves⟩ := hl.remains _ _ _ _ _ hphase
    refine h.of_setConn hconn rfl rfl rfl (fun _ => ⟨hended, rfl⟩) ?_
    rintro _ _ _ _ _ ⟨⟩
    exact handled_of_setConn hclose fun _ hquit =>
      nomatch hleaves.deaf (Server.handler_deaf hfunc hquit)
  | finish hphase => exact h.finish hl hphase
  | overrun hreceiving hconn harrived => exact h.of_goto nofun
  | badRequest os hphase hne hconn harrived hbad => exact h.of_goto nofun
  | halt hphase => exact h.of_goto nofun
  | sigpipe hphase hconn hended => exact h.of_goto nofun

/-- The registrations are balanced when no connection leaks. -/
theorem Accounted.balanced_iff (h : l.Accounted listenfd) (hlisten : l.conns listenfd = none) :
    l.Balanced listenfd ↔ ∀ fd, ¬ l.Leaks fd := by
  constructor
  · rintro hbalanced fd ⟨c, hconn, hfailed⟩
    have hne : fd ≠ listenfd := by
      rintro rfl
      exact nomatch hconn.symm.trans hlisten
    have hopened : l.conns fd ≠ none := fun hnone => nomatch hconn.symm.trans hnone
    have ⟨c', hconn', hlive⟩ := (hbalanced fd hne).mp ((h.registered fd hne).mpr hopened)
    rw [hconn] at hconn'
    cases hconn'
    exact nomatch hfailed.symm.trans hlive
  · intro hnone fd hne
    rw [h.registered fd hne]
    constructor
    · intro hopened
      have ⟨c, hconn⟩ := Option.ne_none_iff_exists'.mp hopened
      refine ⟨c, hconn, ?_⟩
      by_contra hfailed
      exact hnone fd ⟨c, hconn, by simpa using hfailed⟩
    · rintro ⟨c, hconn, _⟩ hclosed
      exact nomatch hconn.symm.trans hclosed

/-! ## Connections that have failed -/

theorem leaks_setConn_iff {x : Int} {c c' : Conn} (hconn : l.conns x = some c)
    (hfailed : c'.failed = c.failed) : (l.setConn x (some c')).Leaks fd ↔ l.Leaks fd := by
  by_cases heq : fd = x
  · subst heq
    simp only [Leaks, setConn_self, hconn, Option.some.injEq, exists_eq_left', hfailed]
  · simp only [Leaks, setConn_other heq]

/-- Apart from a `recv_post` that fails, a step changes nothing about which
connections leak. -/
theorem Accounted.leaks_step_iff (h : l.Accounted listenfd) (hl : l.Orderly listenfd)
    (hstep : LoopStep listenfd l e l') (hfails : ¬ e.Fails) : l'.Leaks fd ↔ l.Leaks fd := by
  cases hstep with
  | connect | pending | poll | acceptFailed | sendFailed | overrun | badRequest | halt | sigpipe =>
    exact .rfl
  | peer hacts hconn => exact leaks_setConn_iff hconn (failed_of_acts hacts)
  | lost => exact absurd trivial hfails
  | request hphase hne hconn => exact leaks_setConn_iff hconn rfl
  | dropped os hphase hne hconn => exact leaks_setConn_iff hconn rfl
  | send hphase hconn => exact leaks_setConn_iff hconn rfl
  | receive hphase hconn => exact leaks_setConn_iff hconn rfl
  | receiveFailed => exact absurd trivial hfails
  | @accept x added c backlog todo hphase hbacklog hfresh hne =>
    have hlive : c.failed = false := (hbacklog ▸ h.backlog) c List.mem_cons_self
    show (l.setConn x (some c)).Leaks fd ↔ _
    by_cases heq : fd = x
    · subst heq
      simp [Leaks, setConn_self, hlive, hfresh]
    · simp only [Leaks, setConn_other heq]
  | @finish x req os code s todo hphase =>
    have ⟨hclose, hquit⟩ := h.handled _ _ _ _ _ hphase
    have ⟨hne, hremains⟩ := hl.remains _ _ _ _ _ hphase
    by_cases hout : x ∉ s.registered ∧ os.close x = true
    · have hind : type2ind req.type = 6 := by
        by_contra hother
        have hsame : s.registered = l.server.registered :=
          hremains.returns fun _ hfunc => Server.handler_registered hfunc hother
        rw [hsame, h.registered x hne] at hout
        exact hout.1 (hl.opened x (by rw [hphase]; exact List.mem_cons_self) hne)
      rw [if_pos hout]
      show (l.setConn x none).Leaks fd ↔ _
      by_cases heq : fd = x
      · subst heq
        refine iff_of_false (by simp [Leaks, setConn_self]) ?_
        rintro ⟨c, hconn, hfailed⟩
        exact hquit c hconn hfailed hind
      · simp only [Leaks, setConn_other heq]
    · rw [if_neg hout]
      exact .rfl

/-- A `recv_post` that fails makes a connection leak. -/
theorem leaks_of_fails (hstep : LoopStep listenfd l e l') (hfails : e.Fails) :
    ∃ fd, l'.Leaks fd := by
  cases hstep with
  | @lost fd c => exact ⟨fd, _, setConn_self, rfl⟩
  | @receiveFailed fd req os next c => exact ⟨fd, _, setConn_self, rfl⟩
  | connect | pending | peer | poll | accept | acceptFailed | request | dropped | send | sendFailed
  | receive | finish | overrun | badRequest | halt | sigpipe => cases hfails

/-- A `recv_post` that fails ends no leak. -/
theorem Leaks.of_set (hleaks : l.Leaks fd) {x : Int} {c' : Conn}
    (hconns : l'.conns = (l.setConn x (some c')).conns) (hfailed' : c'.failed = true) :
    l'.Leaks fd := by
  by_cases heq : fd = x
  · subst heq
    refine ⟨c', ?_, hfailed'⟩
    rw [hconns]
    exact setConn_self
  · obtain ⟨d, hd, hfailed⟩ := hleaks
    refine ⟨d, ?_, hfailed⟩
    rw [hconns]
    exact (setConn_other heq).trans hd

/-- A connection that leaks goes on to leak. -/
theorem Accounted.leaks_stay (h : l.Accounted listenfd) (hl : l.Orderly listenfd)
    (hstep : LoopStep listenfd l e l') (hleaks : l.Leaks fd) : l'.Leaks fd := by
  by_cases hfails : e.Fails
  · cases hstep with
    | lost => exact hleaks.of_set rfl rfl
    | receiveFailed => exact hleaks.of_set rfl rfl
    | connect | pending | peer | poll | accept | acceptFailed | request | dropped | send
    | sendFailed | receive | finish | overrun | badRequest | halt | sigpipe => cases hfails
  · exact (h.leaks_step_iff hl hstep hfails).mpr hleaks

/-! ## Runs -/

section Runs

variable {es : List Event}

/-- The run lemma: the accounts, and which runs leave nothing behind. -/
theorem accounted_of_trace (hrun : (eventLoop listenfd dir).Trace (start listenfd dir) es l)
    (hworks : ∀ e ∈ es, e.Works) :
    l.Accounted listenfd ∧ l.Orderly listenfd ∧
      ((∀ fd, ¬ l.Leaks fd) ↔ ∀ e ∈ es, ¬ e.Fails) := by
  induction hrun with
  | nil => exact ⟨accounted_start, orderly_start, iff_of_true nofun nofun⟩
  | @snoc l l' es e hrun hstep ih =>
    have ⟨haccounted, horderly, hiff⟩ := ih fun x hx => hworks x (List.mem_append_left _ hx)
    have hlast : e.Works := hworks e (List.mem_append_right _ (List.mem_singleton_self e))
    refine ⟨haccounted.step horderly hlast hstep, horderly.step hstep, ?_⟩
    rw [List.forall_mem_append, List.forall_mem_singleton, ← hiff]
    by_cases hfails : e.Fails
    · refine iff_of_false (fun hnone => ?_) fun h => h.2 hfails
      have ⟨fd, hleaks⟩ := leaks_of_fails hstep hfails
      exact hnone fd hleaks
    · simp only [haccounted.leaks_step_iff horderly hstep hfails, hfails, not_false_eq_true,
        and_true]

/-- The connection of every `recv_post` that has failed in the loop leaks. -/
theorem leaks_of_lost (hrun : (eventLoop listenfd dir).Trace (start listenfd dir) es l)
    (hworks : ∀ e ∈ es, e.Works) (hlost : .lost fd ∈ es) : l.Leaks fd := by
  induction hrun with
  | nil => cases hlost
  | @snoc l l' es e hrun hstep ih =>
    have hbefore : ∀ x ∈ es, x.Works := fun x hx => hworks x (List.mem_append_left _ hx)
    have ⟨haccounted, horderly, _⟩ := accounted_of_trace hrun hbefore
    rcases List.mem_append.mp hlost with hlost | hlost
    · exact haccounted.leaks_stay horderly hstep (ih hbefore hlost)
    · cases List.mem_singleton.mp hlost
      cases hstep with
      | lost => exact ⟨_, setConn_self, rfl⟩

end Runs

end Loop

/-- **Connections are released** exactly as long as no `recv_post` fails: after
a run in which `epoll_ctl` and `close` work, the registered descriptors are
those of the live connections if and only if no `recv_post` has failed in the
run, and a descriptor on which one has failed in the loop is never released. -/
theorem connections_balanced_iff {listenfd : Int} {dir : Path} {l : Loop} {es : List Event}
    (hrun : (eventLoop listenfd dir).Trace (Loop.start listenfd dir) es l)
    (hworks : ∀ e ∈ es, e.Works) :
    (l.Balanced listenfd ↔ ∀ e ∈ es, ¬ e.Fails) ∧ ∀ fd, .lost fd ∈ es → ¬ l.Released fd := by
  have ⟨haccounted, horderly, hiff⟩ := Loop.accounted_of_trace hrun hworks
  refine ⟨(haccounted.balanced_iff horderly.listen).trans hiff, fun fd hlost hreleased => ?_⟩
  have ⟨c, hconn, _⟩ := Loop.leaks_of_lost hrun hworks hlost
  exact nomatch hconn.symm.trans hreleased.closed

/-! ## A client that goes away -/

/-- The server listens on descriptor 3 and one client is connected on 5. -/
def oneClient (c : Conn) : Loop :=
  ⟨⟨literal "/srv", literal "/srv", fun _ => literal "NULL", [5, 3], []⟩,
    Function.update (fun _ => none) 5 (some c), [], .batch []⟩

/-- A new connection. -/
def freshConn : Conn := ⟨[], false, maxbuf, false⟩

/-- The connection after the peer has gone. -/
def goneConn : Conn := { freshConn with ended := true }

/-- A client connects and is accepted. -/
theorem oneClient_trace :
    (eventLoop 3 (literal "/srv")).Trace (Loop.start 3 (literal "/srv"))
      [.connect freshConn, .poll [3], .accept 5 true] (oneClient freshConn) := by
  have hconnect : LoopStep 3 (Loop.start 3 (literal "/srv")) (.connect freshConn)
      { Loop.start 3 (literal "/srv") with backlog := [freshConn] } := .connect freshConn rfl
  have hpoll : LoopStep 3 { Loop.start 3 (literal "/srv") with backlog := [freshConn] }
      (.poll [3]) (Loop.goto { Loop.start 3 (literal "/srv") with backlog := [freshConn] }
        (.batch [3])) := .poll rfl (Loop.polls_start freshConn)
  have haccept : LoopStep 3 (Loop.goto { Loop.start 3 (literal "/srv") with
      backlog := [freshConn] } (.batch [3])) (.accept 5 true) (oneClient freshConn) :=
    .accept rfl rfl rfl (by decide)
  exact .snoc (.snoc (.snoc (.nil _) hconnect) hpoll) haccept

/-- The connection after its client has sent a `QUIT`. -/
def quittingConn : Conn := { freshConn with unread := Post.bytes ⟨quitRequest, 0, []⟩ }

/-- The client quits, and the server closes its connection. -/
def quitEvents : List Event :=
  [.connect freshConn, .poll [3], .accept 5 true] ++
    [.peer 5 (.sends (Post.bytes ⟨quitRequest, 0, []⟩))] ++ [.poll [5]] ++
    [.request 5 ⟨quitRequest, 0, []⟩ plainOs] ++ [.send true] ++ [.finish]

theorem quit_trace :
    ∃ l, (eventLoop 3 (literal "/srv")).Trace (Loop.start 3 (literal "/srv")) quitEvents l ∧
      l.conns 5 = none := by
  have hsend : LoopStep 3 (oneClient freshConn)
      (.peer 5 (.sends (Post.bytes ⟨quitRequest, 0, []⟩)))
      ((oneClient freshConn).setConn 5 (some quittingConn)) :=
    .peer (.sends freshConn _ rfl) rfl
  have hpoll : LoopStep 3 ((oneClient freshConn).setConn 5 (some quittingConn)) (.poll [5])
      (((oneClient freshConn).setConn 5 (some quittingConn)).goto (.batch [5])) :=
    .poll rfl (Loop.polls_client rfl rfl (by decide) rfl (List.cons_ne_nil _ _))
  have harrived : arrived quittingConn.unread = .post ⟨quitRequest, 0, []⟩ [] :=
    arrived_alone (Nat.zero_le _)
  have hrequest : LoopStep 3 (((oneClient freshConn).setConn 5 (some quittingConn)).goto
      (.batch [5])) (.request 5 ⟨quitRequest, 0, []⟩ plainOs) _ :=
    .request rfl (by decide) rfl harrived
      (show Server.handlerDir plainOs 5 _ = some (literal "/srv") from rfl) rfl
  have hreply := ((oneClient_trace.snoc hsend).snoc hpoll).snoc hrequest
  have hsent := hreply.snoc (.send rfl rfl (by decide))
  exact ⟨_, hsent.snoc (.finish rfl), rfl⟩

/-- With a client that has quit the loop is balanced. -/
theorem balanced_quit :
    ∃ l, (eventLoop 3 (literal "/srv")).Trace (Loop.start 3 (literal "/srv")) quitEvents l ∧
      l.conns 5 = none ∧ l.Balanced 3 := by
  have ⟨l, hrun, hclosed⟩ := quit_trace
  have ⟨hbalanced, _⟩ := connections_balanced_iff hrun (by simp [quitEvents, Event.Works, plainOs])
  exact ⟨l, hrun, hclosed, hbalanced.mpr (by simp [quitEvents, Event.Fails])⟩

/-- The client closes its connection without a `quit`.  After the failed
`recv_post` the server is in `epoll_wait` again, descriptor 5 is open and
registered, and there is no live connection. -/
theorem hangup_leaks :
    ∃ es l, (eventLoop 3 (literal "/srv")).Trace (Loop.start 3 (literal "/srv"))
        (es ++ [.lost 5]) l ∧ (∀ e ∈ es, e.Works) ∧ l.phase = .batch [] ∧
      ¬ l.Released 5 ∧ ¬ l.Balanced 3 := by
  have hleave : LoopStep 3 (oneClient freshConn) (.peer 5 .leaves)
      ((oneClient freshConn).setConn 5 (some goneConn)) :=
    .peer (.leaves freshConn) rfl
  have hpoll : LoopStep 3 ((oneClient freshConn).setConn 5 (some goneConn))
      (.poll [5]) (((oneClient freshConn).setConn 5 (some goneConn)).goto
        (.batch [5])) := by
    refine .poll rfl (Loop.polls_one List.mem_cons_self
      (Loop.ready_of_conn (by decide) rfl (.inr rfl)) ?_)
    intro fd hfd hready
    rcases List.mem_cons.mp hfd with hclient | hlisten
    · exact hclient
    · rw [List.mem_singleton.mp hlisten] at hready
      exact absurd rfl hready
  have hlost : LoopStep 3 (((oneClient freshConn).setConn 5
      (some goneConn)).goto (.batch [5])) (.lost 5) _ :=
    .lost rfl (by decide) rfl rfl (by decide)
  have hrun := ((oneClient_trace.snoc hleave).snoc hpoll).snoc hlost
  have hmem : Event.lost 5 ∈ [Event.connect freshConn, .poll [3], .accept 5 true] ++ [.peer 5 .leaves] ++
      [.poll [5]] ++ [.lost 5] := List.mem_append_right _ (List.mem_singleton_self _)
  have hleaks := Loop.leaks_of_lost hrun (by simp [Event.Works]) hmem
  have ⟨haccounted, horderly, hiff⟩ := Loop.accounted_of_trace hrun (by simp [Event.Works])
  refine ⟨_, _, hrun, by simp [Event.Works], rfl, fun hreleased => ?_, fun hbalanced => ?_⟩
  · have ⟨c, hconn, _⟩ := hleaks
    exact nomatch hconn.symm.trans hreleased.closed
  · exact (haccounted.balanced_iff horderly.listen).mp hbalanced 5 hleaks

end NetLabs.Ftp
