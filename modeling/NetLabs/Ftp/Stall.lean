import Mathlib.Data.Set.Finite.Basic
import NetLabs.Ftp.InStep
import NetLabs.Ftp.Release

/-!
# Waiting in the event loop

The server reads a whole message before it looks at another descriptor, so it
serves nobody while it waits for the rest of a message.

* `Finishes` says that a handler gets to its end with what has arrived, `Fed`
  that the server can work off a descriptor so.
* `Loop.Fluent` is the invariant of the runs in which every descriptor that
  `epoll_wait` returns is fed, and `Fluent.step` the step lemma.
* `no_stall`: in these runs the server gets to every request that waits, by steps
  of its own.
* `Loop.Blocked` is a server that waits for a client: it serves nobody.
-/

namespace NetLabs.Ftp

open Lib

/-! ## What has arrived is enough -/

/-- More has arrived on the connection. -/
structure Conn.Grows (c c' : Conn) : Prop where
  unread : ∃ more, c'.unread = c.unread ++ more ∧ (c.ended = true → more = [])
  ended : c.ended = true → c'.ended = true
  room : c.room ≤ c'.room

theorem grows_of_acts {act : Conn.Act} {c c' : Conn} (h : c.Acts act c') : c.Grows c' := by
  cases h with
  | sends bytes hopen =>
    exact ⟨⟨bytes, rfl, fun hended => nomatch hended.symm.trans hopen⟩, id, le_rfl⟩
  | reads n => exact ⟨⟨[], by simp, fun _ => rfl⟩, id, Nat.le_add_right _ n⟩
  | leaves => exact ⟨⟨[], by simp, fun _ => rfl⟩, fun _ => rfl, le_rfl⟩

theorem Conn.Grows.refl (c : Conn) : c.Grows c :=
  ⟨⟨[], by simp, fun _ => rfl⟩, id, le_rfl⟩

/-- The program gets to its end without waiting for the peer, whether its sends
work or fail. -/
inductive Finishes : Conn → Proc Post (Int × Server) → Prop
  | done (c : Conn) (x : Int × Server) : Finishes c (.done x)
  | send {c : Conn} {m : Post} {next : Bool → Proc Post (Int × Server)}
      (hready : m.bytes.length ≤ c.room ∨ c.ended = true)
      (htrue : Finishes { c with room := c.room - m.bytes.length } (next true))
      (hfalse : Finishes c (next false)) : Finishes c (.send m next)
  | recv {c : Conn} {p : Post} {rest : List UInt8} {next : Option Post → Proc Post (Int × Server)}
      (harrived : arrived c.unread = .post p rest)
      (hnext : Finishes { c with unread := rest } (next (some p))) : Finishes c (.recv next)
  | recvFailed {c : Conn} {next : Option Post → Proc Post (Int × Server)}
      (harrived : arrived c.unread = .unfinished) (hended : c.ended = true)
      (hnext : Finishes { c with unread := [], failed := true } (next none)) :
      Finishes c (.recv next)

theorem Finishes.grows {c c' : Conn} {prog : Proc Post (Int × Server)} (h : Finishes c prog)
    (hgrows : c.Grows c') : Finishes c' prog := by
  induction h generalizing c' with
  | done c x => exact .done _ _
  | send hready _ _ ihtrue ihfalse =>
    have ⟨hunread, hended, hroom⟩ := hgrows
    refine .send ?_ (ihtrue ⟨hunread, hended, Nat.sub_le_sub_right hroom _⟩) (ihfalse hgrows)
    rcases hready with hready | hready
    · exact .inl (hready.trans hroom)
    · exact .inr (hended hready)
  | @recv c p rest next harrived _ ih =>
    have ⟨⟨more, hmore, hnone⟩, hended, hroom⟩ := hgrows
    refine .recv (hmore ▸ arrived_append harrived more) (ih ⟨⟨more, rfl, hnone⟩, hended, hroom⟩)
  | recvFailed harrived hended _ ih =>
    have ⟨⟨more, hmore, hnone⟩, hended', hroom⟩ := hgrows
    rw [hnone hended, List.append_nil] at hmore
    exact .recvFailed (hmore ▸ harrived) (hended' hended)
      (ih ⟨⟨[], rfl, fun _ => rfl⟩, hended', hroom⟩)

/-- The directory that the loop enters from `cwd` for an entry of the table. -/
def clientDir (os : Os) (cwd entry : Path) : Option Path :=
  match os.fsExists cwd entry with
  | none => none
  | some false => some cwd
  | some true => os.chdir cwd entry

theorem handlerDir_eq_clientDir (os : Os) (fd : Int) (s : Server) :
    s.handlerDir os fd = clientDir os s.cwd (s.cwds (fd2ind fd)) := rfl

/-- The server can work off what has arrived on the connection without waiting:
the peer is gone, or there is a whole request, and the loop drops it or its
handler finishes. -/
def Fed (os : Os) (cwd entry : Path) (fd : Int) (c : Conn) : Prop :=
  c.ended = true ∧ arrived c.unread = .unfinished ∨
  ∃ req rest, arrived c.unread = .post req rest ∧
    (os.fsExists cwd entry = some true ∧ os.chdir cwd entry = none ∨
      ∃ dir func, clientDir os cwd entry = some dir ∧
        Server.handler os req.type = some func ∧
        ∀ s : Server, s.cwd = dir →
          Finishes { c with unread := rest } (func fd (cString req.payload) s))

theorem Fed.grows {os : Os} {cwd entry : Path} {fd : Int} {c c' : Conn}
    (h : Fed os cwd entry fd c) (hgrows : c.Grows c') : Fed os cwd entry fd c' := by
  have ⟨⟨more, hmore, hnone⟩, hended', hroom⟩ := hgrows
  rcases h with ⟨hended, harrived⟩ | ⟨req, rest, harrived, hserved⟩
  · rw [hnone hended, List.append_nil] at hmore
    exact .inl ⟨hended' hended, hmore ▸ harrived⟩
  · refine .inr ⟨req, rest ++ more, hmore ▸ arrived_append harrived more, ?_⟩
    rcases hserved with hdropped | ⟨dir, func, hdir, hfunc, hfinishes⟩
    · exact .inl hdropped
    · exact .inr ⟨dir, func, hdir, hfunc, fun s hs =>
        (hfinishes s hs).grows ⟨⟨more, rfl, hnone⟩, hended', hroom⟩⟩

/-! ## Runs without waiting -/

/-- The descriptors that the loop has not got to. -/
@[simp] def Phase.behind : Phase → List Int
  | batch todo => todo
  | handling _ _ _ _ todo => todo
  | exited => []

namespace Loop

/-- What `epoll_wait` returns is fed, a handler that is started finishes and
finds the way back, and the process does not end.  `os` is what the system
calls of the steps to come return. -/
def Feeds (os : Os) (listenfd : Int) (l : Loop) : Event → Prop
  | .poll fds => ∀ fd ∈ fds, fd ≠ listenfd →
      ∃ c, l.conns fd = some c ∧ Fed os l.server.cwd (l.server.cwds (fd2ind fd)) fd c
  | .request fd req os' =>
      (∀ cwd, os'.chdir cwd l.server.dftPath = some l.server.dftPath) ∧
      ∀ c rest dir func, l.conns fd = some c → arrived c.unread = .post req rest →
        l.server.handlerDir os' fd = some dir → Server.handler os' req.type = some func →
        Finishes { c with unread := rest }
          (func fd (cString req.payload) { l.server with cwd := dir })
  | .badRequest _ _ _ => False
  | .exit => False
  | _ => True

/-- The invariant of these runs. -/
structure Fluent (os : Os) (listenfd : Int) (dft : Path) (l : Loop) : Prop where
  alive : l.phase ≠ .exited
  dftPath : l.server.dftPath = dft
  back : ∀ todo, l.phase = .batch todo → l.server.cwd = dft
  fed : ∀ fd ∈ l.phase.behind, fd ≠ listenfd →
    ∃ c, l.conns fd = some c ∧ Fed os dft (l.server.cwds (fd2ind fd)) fd c
  finishes : ∀ fd req os' prog todo, l.phase = .handling fd req os' prog todo →
    (∀ cwd, os'.chdir cwd dft = some dft) ∧ ∃ c, l.conns fd = some c ∧ Finishes c prog
  listening : listenfd ∈ l.phase.behind → l.backlog ≠ []
  finite : Set.Finite {fd | l.conns fd ≠ none}

variable {os : Os} {listenfd : Int} {dft : Path} {l l' : Loop} {e : Event}

theorem fluent_start : (start listenfd dft).Fluent os listenfd dft where
  alive := nofun
  dftPath := rfl
  back _ _ := rfl
  fed := nofun
  finishes := nofun
  listening := nofun
  finite := by simp [start]

/-- What is fed stays fed while more arrives. -/
theorem Fluent.fed_of (h : l.Fluent os listenfd dft) {todo : List Int}
    (htodo : ∀ x ∈ todo, x ∈ l.phase.behind)
    (hentry : ∀ x ∈ todo, l'.server.cwds (fd2ind x) = l.server.cwds (fd2ind x))
    (hconns : ∀ x ∈ todo, ∀ c, l.conns x = some c → ∃ c', l'.conns x = some c' ∧ c.Grows c') :
    ∀ x ∈ todo, x ≠ listenfd →
      ∃ c, l'.conns x = some c ∧ Fed os dft (l'.server.cwds (fd2ind x)) x c := by
  intro x hx hne
  have ⟨c, hconn, hfed⟩ := h.fed x (htodo x hx) hne
  have ⟨c', hconn', hgrows⟩ := hconns x hx c hconn
  rw [hentry x hx]
  exact ⟨c', hconn', hfed.grows hgrows⟩

/-- A step on the connection that the server is at. -/
theorem Fluent.of_head (h : l.Fluent os listenfd dft) {fd : Int} {c c' : Conn}
    (hconn : l.conns fd = some c) (hconns : l'.conns = (l.setConn fd (some c')).conns)
    (hbacklog : l'.backlog = l.backlog) (halive : l'.phase ≠ .exited)
    (hdftPath : l'.server.dftPath = l.server.dftPath)
    (hcwds : l'.server.cwds = l.server.cwds)
    (hbehind : ∀ x ∈ l'.phase.behind, x ≠ fd ∧ x ∈ l.phase.behind)
    (hback : ∀ todo, l'.phase = .batch todo → l'.server.cwd = dft)
    (hfinishes : ∀ fd req os' prog todo, l'.phase = .handling fd req os' prog todo →
      (∀ cwd, os'.chdir cwd dft = some dft) ∧ ∃ c, l'.conns fd = some c ∧ Finishes c prog) :
    l'.Fluent os listenfd dft where
  alive := halive
  dftPath := hdftPath.trans h.dftPath
  back := hback
  fed := by
    refine h.fed_of (fun x hx => (hbehind x hx).2) (fun x _ => by rw [hcwds]) fun x hx d hd => ?_
    rw [hconns, setConn_other (hbehind x hx).1]
    exact ⟨d, hd, .refl d⟩
  finishes := hfinishes
  listening hlisten := hbacklog ▸ h.listening (hbehind listenfd hlisten).2
  finite := by
    refine h.finite.subset fun x hx => ?_
    rw [Set.mem_ofPred_eq, hconns, ne_eq, setConn_none_iff hconn] at hx
    exact hx

/-- The head of the batch is done with. -/
theorem Fluent.of_batch (h : l.Fluent os listenfd dft) {fd : Int} {c c' : Conn} {todo : List Int}
    (hconn : l.conns fd = some c) (hconns : l'.conns = (l.setConn fd (some c')).conns)
    (hbacklog : l'.backlog = l.backlog) (hphase' : l'.phase = .batch todo)
    (hdftPath : l'.server.dftPath = l.server.dftPath)
    (hcwds : l'.server.cwds = l.server.cwds)
    (hbehind : ∀ x ∈ todo, x ≠ fd ∧ x ∈ l.phase.behind) (hback : l'.server.cwd = dft) :
    l'.Fluent os listenfd dft := by
  refine h.of_head hconn hconns hbacklog ?_ hdftPath hcwds ?_ (fun _ _ => hback) ?_
  · rw [hphase']
    intro hexited
    cases hexited
  · rw [hphase']
    exact hbehind
  · intro fd' req os' prog todo' hhandling
    rw [hphase'] at hhandling
    cases hhandling

/-- A handler runs for the head of the batch. -/
theorem Fluent.of_handling (h : l.Fluent os listenfd dft) {fd : Int} {c c' : Conn} {req : Post}
    {os' : Os} {prog : Proc Post (Int × Server)} {todo : List Int}
    (hconn : l.conns fd = some c) (hconns : l'.conns = (l.setConn fd (some c')).conns)
    (hbacklog : l'.backlog = l.backlog) (hphase' : l'.phase = .handling fd req os' prog todo)
    (hdftPath : l'.server.dftPath = l.server.dftPath)
    (hcwds : l'.server.cwds = l.server.cwds)
    (hbehind : ∀ x ∈ todo, x ≠ fd ∧ x ∈ l.phase.behind)
    (hback : ∀ cwd, os'.chdir cwd dft = some dft) (hfinishes : Finishes c' prog) :
    l'.Fluent os listenfd dft := by
  refine h.of_head hconn hconns hbacklog ?_ hdftPath hcwds ?_ ?_ ?_
  · rw [hphase']
    intro hexited
    cases hexited
  · rw [hphase']
    exact hbehind
  · intro todo' hbatch
    rw [hphase'] at hbatch
    cases hbatch
  · intro fd' req' os'' prog' todo' hhandling
    rw [hphase'] at hhandling
    cases hhandling
    refine ⟨hback, c', ?_, hfinishes⟩
    rw [hconns]
    exact setConn_self

theorem Orderly.behind_of_batch (hl : l.Orderly listenfd) {fd : Int} {todo : List Int}
    (hphase : l.phase = .batch (fd :: todo)) : ∀ x ∈ todo, x ≠ fd ∧ x ∈ l.phase.behind := by
  intro x hx
  have hnodup := hl.nodup
  rw [hphase] at hnodup ⊢
  refine ⟨fun heq => (List.nodup_cons.mp hnodup).1 (heq ▸ hx), List.mem_cons_of_mem _ hx⟩

theorem Orderly.behind_of_handling (hl : l.Orderly listenfd) {fd : Int} {req : Post} {os' : Os}
    {prog : Proc Post (Int × Server)} {todo : List Int}
    (hphase : l.phase = .handling fd req os' prog todo) :
    ∀ x ∈ todo, x ≠ fd ∧ x ∈ l.phase.behind := by
  intro x hx
  have hnodup := hl.nodup
  rw [hphase] at hnodup ⊢
  refine ⟨fun heq => (List.nodup_cons.mp hnodup).1 (heq ▸ hx), hx⟩

/-- What the rest of a batch still finds when the server goes on to it. -/
theorem Fluent.of_rest (h : l.Fluent os listenfd dft) (hl : l.Orderly listenfd) {todo : List Int}
    (hphase : l.phase = .batch (listenfd :: todo)) (hphase' : l'.phase = .batch todo)
    (hdftPath : l'.server.dftPath = l.server.dftPath) (hcwd : l'.server.cwd = l.server.cwd)
    (hcwds : l'.server.cwds = l.server.cwds)
    (hconns : ∀ x c, l.conns x = some c → l'.conns x = some c)
    (hfinite : Set.Finite {fd | l'.conns fd ≠ none}) : l'.Fluent os listenfd dft := by
  have hrest : ∀ x ∈ todo, x ≠ listenfd ∧ x ∈ l.phase.behind := hl.behind_of_batch hphase
  refine ⟨?_, hdftPath.trans h.dftPath, fun _ _ => hcwd.trans (h.back _ hphase), ?_, ?_, ?_,
    hfinite⟩
  · rw [hphase']
    exact nofun
  · rw [hphase']
    exact h.fed_of (fun x hx => (hrest x hx).2) (fun x _ => by rw [hcwds])
      fun x _ d hd => ⟨d, hconns x d hd, .refl d⟩
  · rw [hphase']
    exact nofun
  · rw [hphase']
    exact fun hlisten => absurd rfl (hrest listenfd hlisten).1

/-- A handler that returns has changed what concerns its own connection only. -/
theorem Fluent.finish (h : l.Fluent os listenfd dft) (hl : l.Orderly listenfd) {fd : Int}
    {req : Post} {os' : Os} {code : Int} {s : Server} {todo : List Int}
    (hphase : l.phase = .handling fd req os' (.done (code, s)) todo) :
    Fluent os listenfd dft ⟨Server.leave os' s,
      if fd ∉ s.registered ∧ os'.close fd = true then Function.update l.conns fd none
        else l.conns, l.backlog, .batch todo⟩ := by
  have ⟨hback, _⟩ := h.finishes _ _ _ _ _ hphase
  have hne := (hl.remains _ _ _ _ _ hphase).1
  have hframed : Server.Framed os' fd l.server s := hl.framed hphase
  have hdftPath : s.dftPath = dft := hframed.dftPath.trans h.dftPath
  have hbehind := hl.behind_of_handling hphase
  refine ⟨nofun, Server.leave_dftPath.trans hdftPath, fun _ _ => ?_, ?_, nofun,
    fun hlisten => h.listening (hbehind listenfd hlisten).2, ?_⟩
  · exact Server.leave_cwd (hdftPath ▸ hback s.cwd)
  · refine h.fed_of (fun x hx => (hbehind x hx).2) (fun x hx => ?_) fun x hx d hd => ?_
    · show (Server.leave os' s).cwds (fd2ind x) = _
      rw [Server.leave_cwds, hframed.cwds x (hbehind x hx).1]
    · exact ⟨d, (conns_finish_other (hbehind x hx).1).trans hd, .refl d⟩
  · refine h.finite.subset fun x hx => ?_
    by_cases hxfd : x = fd
    · subst hxfd
      exact hl.opened x (by rw [hphase]; exact List.mem_cons_self) hne
    · exact fun hnone => hx ((conns_finish_other hxfd).trans hnone)

/-- What the peers do in the meantime does no harm. -/
theorem Fluent.peer (h : l.Fluent os listenfd dft) {fd : Int} {act : Conn.Act} {c c' : Conn}
    (hacts : c.Acts act c') (hconn : l.conns fd = some c) : (l.setConn fd (some c')).Fluent os listenfd dft := by
  have hgrows : ∀ x d, l.conns x = some d →
      ∃ d', (l.setConn fd (some c')).conns x = some d' ∧ d.Grows d' := by
    intro x d hd
    by_cases hx : x = fd
    · subst hx
      rw [hconn] at hd
      cases hd
      exact ⟨c', setConn_self, grows_of_acts hacts⟩
    · exact ⟨d, (setConn_other hx).trans hd, .refl d⟩
  refine ⟨h.alive, h.dftPath, h.back, ?_, ?_, h.listening, ?_⟩
  · exact h.fed_of (fun _ hx => hx) (fun _ _ => rfl) fun x _ => hgrows x
  · intro x req os' prog todo hphase
    have ⟨hback, d, hd, hfinishes⟩ := h.finishes x req os' prog todo hphase
    have ⟨d', hd', hmore⟩ := hgrows x d hd
    exact ⟨hback, d', hd', hfinishes.grows hmore⟩
  · refine h.finite.subset fun x hx => ?_
    rw [Set.mem_ofPred_eq, ne_eq, setConn_none_iff hconn] at hx
    exact hx

/-- The handler that runs finishes with what there is on its connection. -/
theorem Fluent.finishes_of (h : l.Fluent os listenfd dft) {fd : Int} {req : Post} {os' : Os}
    {prog : Proc Post (Int × Server)} {todo : List Int} {c : Conn}
    (hphase : l.phase = .handling fd req os' prog todo) (hconn : l.conns fd = some c) :
    (∀ cwd, os'.chdir cwd dft = some dft) ∧ Finishes c prog := by
  have ⟨hback, c', hconn', hfinishes⟩ := h.finishes _ _ _ _ _ hphase
  rw [hconn] at hconn'
  cases hconn'
  exact ⟨hback, hfinishes⟩

/-- **Step lemma** of the runs without waiting. -/
theorem Fluent.step (h : l.Fluent os listenfd dft) (hl : l.Orderly listenfd)
    (hfeeds : l.Feeds os listenfd e) (hstep : LoopStep listenfd l e l') :
    l'.Fluent os listenfd dft := by
  cases hstep with
  | connect c hnew =>
    exact ⟨h.alive, h.dftPath, h.back, h.fed, h.finishes, fun _ => by simp, h.finite⟩
  | pending hacts hbacklog =>
    exact ⟨h.alive, h.dftPath, h.back, h.fed, h.finishes, fun _ => by simp, h.finite⟩
  | peer hacts hconn => exact h.peer hacts hconn
  | @poll fds hphase hpolls =>
    refine ⟨?_, h.dftPath, fun _ _ => h.back _ hphase, fun x hx hne => ?_, ?_, fun hlisten => ?_,
      h.finite⟩
    · intro hexited
      cases hexited
    · obtain ⟨c, hconn, hfed⟩ := hfeeds x hx hne
      rw [h.back _ hphase] at hfed
      exact ⟨c, hconn, hfed⟩
    · intro fd' req' os' prog todo hhandling
      cases hhandling
    · have hready := (hpolls.ready listenfd hlisten).2
      rw [Ready, if_pos rfl] at hready
      exact hready
  | @accept fd added c backlog todo hphase hbacklog hfresh hne =>
    refine h.of_rest hl hphase rfl ?_ ?_ ?_ (fun x d hd => ?_) ?_
    · cases added <;> rfl
    · cases added <;> rfl
    · cases added <;> rfl
    · have hx : x ≠ fd := by
        rintro rfl
        rw [hfresh] at hd
        cases hd
      exact (setConn_other hx).trans hd
    · refine (h.finite.insert fd).subset fun x hx => ?_
      by_cases hxfd : x = fd
      · exact .inl hxfd
      · have hother : (l.setConn fd (some c)).conns x ≠ none := hx
        rw [setConn_other hxfd] at hother
        exact .inr hother
  | acceptFailed hphase =>
    exact h.of_rest hl hphase rfl rfl rfl rfl (fun _ _ hd => hd) h.finite
  | lost hphase hne hconn hended harrived =>
    exact h.of_batch hconn rfl rfl rfl rfl rfl (hl.behind_of_batch hphase) (h.back _ hphase)
  | dropped os' hphase hne hconn harrived hexists hchdir =>
    exact h.of_batch hconn rfl rfl rfl rfl rfl (hl.behind_of_batch hphase) (h.back _ hphase)
  | @request fd req os' c rest dir func todo hphase hne hconn harrived hdir hfunc =>
    obtain ⟨hback, hfinishes⟩ := hfeeds
    rw [h.dftPath] at hback
    exact h.of_handling hconn rfl rfl rfl rfl rfl (hl.behind_of_batch hphase) hback
      (hfinishes c rest dir func hconn harrived hdir hfunc)
  | @send fd req m os' next c todo hphase hconn hroom =>
    obtain ⟨hback, hfinishes⟩ := h.finishes_of hphase hconn
    refine h.of_handling hconn rfl rfl rfl rfl rfl (hl.behind_of_handling hphase) hback ?_
    cases hfinishes with
    | send _ htrue _ => exact htrue
  | @sendFailed fd req m os' next c todo hphase hconn hended =>
    obtain ⟨hback, hfinishes⟩ := h.finishes_of hphase hconn
    have hsame : l.conns = (l.setConn fd (some c)).conns := by
      rw [setConn, ← hconn]
      exact (Function.update_eq_self fd l.conns).symm
    refine h.of_handling hconn hsame rfl rfl rfl rfl (hl.behind_of_handling hphase) hback ?_
    cases hfinishes with
    | send _ _ hfalse => exact hfalse
  | @receive fd req m os' next c rest todo hphase hconn harrived =>
    obtain ⟨hback, hfinishes⟩ := h.finishes_of hphase hconn
    refine h.of_handling hconn rfl rfl rfl rfl rfl (hl.behind_of_handling hphase) hback ?_
    cases hfinishes with
    | recv harrived' hnext =>
      rw [harrived] at harrived'
      cases harrived'
      exact hnext
    | recvFailed harrived' =>
      rw [harrived] at harrived'
      cases harrived'
  | @receiveFailed fd req os' next c todo hphase hconn hended harrived =>
    obtain ⟨hback, hfinishes⟩ := h.finishes_of hphase hconn
    refine h.of_handling hconn rfl rfl rfl rfl rfl (hl.behind_of_handling hphase) hback ?_
    cases hfinishes with
    | recv harrived' =>
      rw [harrived] at harrived'
      cases harrived'
    | recvFailed _ _ hnext => exact hnext
  | finish hphase => exact h.finish hl hphase
  | overrun | badRequest | halt | sigpipe => exact hfeeds.elim

theorem fluent_of_reachable
    (h : ((eventLoop listenfd dft).restrict (Feeds os listenfd)).Reachable l) :
    l.Fluent os listenfd dft := by
  induction h with
  | init hinit =>
    subst hinit
    exact fluent_start
  | step hreach hstep ih =>
    exact ih.step (orderly_of_reachable hreach.of_restrict) hstep.1 hstep.2

end Loop

/-! ## Steps of the server alone -/

/-- A step of the server, with these results of its system calls. -/
def Event.ServerOnly (os : Os) : Event → Prop
  | connect _ => False
  | pending _ _ => False
  | peer _ _ => False
  | request _ _ os' => os' = os
  | dropped _ os' => os' = os
  | _ => True

/-- A step of a handler that has been started. -/
def Event.Handles : Event → Prop
  | send _ => True
  | receive _ => True
  | finish => True
  | _ => False

theorem serverOnly_of_handles (os : Os) (e : Event) (h : e.Handles) : e.ServerOnly os := by
  cases e with
  | send | receive | finish => trivial
  | connect | pending | peer | poll | accept | acceptFailed | lost | request | dropped
  | badRequest | exit =>
    cases h

namespace Loop

variable {os : Os} {listenfd : Int} {dft : Path} {l l' : Loop} {e : Event}

variable (listenfd dft) in
/-- A handler that finishes gets to its end by steps of its own. -/
theorem handler_path {c : Conn} {prog : Proc Post (Int × Server)} (h : Finishes c prog) {fd : Int}
    {req : Post} {os' : Os} {todo : List Int} (hphase : l.phase = .handling fd req os' prog todo)
    (hconn : l.conns fd = some c) :
    ∃ l', (eventLoop listenfd dft).Path Event.Handles l l' ∧ l'.phase = .batch todo := by
  induction h generalizing l with
  | done c x => exact ⟨_, .single (e := .finish) trivial (.finish hphase), rfl⟩
  | @send c m next hready _ _ ihtrue ihfalse =>
    rcases hready with hroom | hended
    · have hstep : LoopStep listenfd l (.send true) _ := .send hphase hconn hroom
      have ⟨l', hpath, hend⟩ := ihtrue
        (l := (l.setConn fd (some { c with room := c.room - m.bytes.length })).goto
          (.handling fd req os' (next true) todo)) rfl setConn_self
      exact ⟨l', .trans (.single (e := .send true) trivial hstep) hpath, hend⟩
    · have hstep : LoopStep listenfd l (.send false) _ := .sendFailed hphase hconn hended
      have ⟨l', hpath, hend⟩ := ihfalse
        (l := l.goto (.handling fd req os' (next false) todo)) rfl hconn
      exact ⟨l', .trans (.single (e := .send false) trivial hstep) hpath, hend⟩
  | @recv c p rest next harrived _ ih =>
    have hstep : LoopStep listenfd l (.receive (some p)) _ := .receive hphase hconn harrived
    have ⟨l', hpath, hend⟩ := ih
      (l := (l.setConn fd (some { c with unread := rest })).goto
        (.handling fd req os' (next (some p)) todo)) rfl setConn_self
    exact ⟨l', .trans (.single (e := .receive (some p)) trivial hstep) hpath, hend⟩
  | @recvFailed c next harrived hended _ ih =>
    have hstep : LoopStep listenfd l (.receive none) _ := .receiveFailed hphase hconn hended harrived
    have ⟨l', hpath, hend⟩ := ih
      (l := (l.setConn fd (some { c with unread := [], failed := true })).goto
        (.handling fd req os' (next none) todo)) rfl setConn_self
    exact ⟨l', .trans (.single (e := .receive none) trivial hstep) hpath, hend⟩

/-- A client whose requests are not being handled: its connection and its entry. -/
structure Holds (listenfd fd : Int) (c : Conn) (entry : Path) (l : Loop) : Prop where
  ne : fd ≠ listenfd
  registered : fd ∈ l.server.registered
  idle : ∀ req os' prog todo, l.phase ≠ .handling fd req os' prog todo
  conn : l.conns fd = some c
  entry : l.server.cwds (fd2ind fd) = entry

/-- A step on another connection. -/
theorem Holds.of_other {fd x : Int} {c : Conn} {entry : Path} (h : l.Holds listenfd fd c entry)
    (hx : fd ≠ x) (hregistered : l'.server.registered = l.server.registered)
    (hcwds : l'.server.cwds = l.server.cwds) (hconns : l'.conns fd = l.conns fd)
    (hphase : ∀ y req os' prog todo, l'.phase = .handling y req os' prog todo → y = x) :
    l'.Holds listenfd fd c entry where
  ne := h.ne
  registered := hregistered ▸ h.registered
  idle req os' prog todo hhandling := hx (hphase fd req os' prog todo hhandling)
  conn := hconns.trans h.conn
  entry := by rw [hcwds, h.entry]

/-- A handler starts or goes on for another connection. -/
theorem Holds.of_handling {fd x : Int} {c : Conn} {entry : Path} (h : l.Holds listenfd fd c entry)
    {req : Post} {os' : Os} {prog : Proc Post (Int × Server)} {todo : List Int} (hx : fd ≠ x)
    (hregistered : l'.server.registered = l.server.registered)
    (hcwds : l'.server.cwds = l.server.cwds) (hconns : l'.conns fd = l.conns fd)
    (hphase' : l'.phase = .handling x req os' prog todo) : l'.Holds listenfd fd c entry := by
  refine h.of_other hx hregistered hcwds hconns ?_
  intro y req' os'' prog' todo' hhandling
  rw [hphase'] at hhandling
  cases hhandling
  rfl

/-- The server by itself does nothing to a client that it has not got to. -/
theorem Holds.step {fd : Int} {c : Conn} {entry : Path} (h : l.Holds listenfd fd c entry)
    (hl : l.Orderly listenfd) (hserver : e.ServerOnly os)
    (hturn : ∀ todo, l.phase ≠ .batch (fd :: todo)) (hstep : LoopStep listenfd l e l') :
    l'.Holds listenfd fd c entry := by
  have ⟨hne, hregistered, hidle, hconn, hentry⟩ := h
  cases hstep with
  | connect | pending | peer => exact hserver.elim
  | poll | acceptFailed | overrun | badRequest | halt | sigpipe =>
    exact ⟨hne, hregistered, nofun, hconn, hentry⟩
  | @accept x added c' backlog todo hphase hbacklog hfresh hxne =>
    have hx : fd ≠ x := by
      rintro rfl
      exact nomatch hconn.symm.trans hfresh
    refine ⟨hne, ?_, nofun, (setConn_other hx).trans hconn, ?_⟩
    · cases added with
      | false => exact hregistered
      | true => exact List.mem_cons_of_mem _ hregistered
    · rw [← hentry]
      cases added <;> rfl
  | @lost x c' todo hphase =>
    have hx : fd ≠ x := fun heq => hturn todo (heq ▸ hphase)
    exact h.of_other hx rfl rfl (setConn_other hx) nofun
  | @dropped x req c' rest todo os' hphase =>
    have hx : fd ≠ x := fun heq => hturn todo (heq ▸ hphase)
    exact h.of_other hx rfl rfl (setConn_other hx) nofun
  | @request x req os' c' rest dir func todo hphase =>
    have hx : fd ≠ x := fun heq => hturn todo (heq ▸ hphase)
    exact h.of_handling hx rfl rfl (setConn_other hx) rfl
  | @send x req m os' next c' todo hphase =>
    have hx : fd ≠ x := fun heq => hidle _ _ _ _ (heq ▸ hphase)
    exact h.of_handling hx rfl rfl (setConn_other hx) rfl
  | @sendFailed x req m os' next c' todo hphase =>
    have hx : fd ≠ x := fun heq => hidle _ _ _ _ (heq ▸ hphase)
    exact h.of_handling hx rfl rfl rfl rfl
  | @receive x req m os' next c' rest todo hphase =>
    have hx : fd ≠ x := fun heq => hidle _ _ _ _ (heq ▸ hphase)
    exact h.of_handling hx rfl rfl (setConn_other hx) rfl
  | @receiveFailed x req os' next c' todo hphase =>
    have hx : fd ≠ x := fun heq => hidle _ _ _ _ (heq ▸ hphase)
    exact h.of_handling hx rfl rfl (setConn_other hx) rfl
  | @finish x req os' code s todo hphase =>
    have hx : fd ≠ x := fun heq => hidle _ _ _ _ (heq ▸ hphase)
    have hframed : Server.Framed os' x l.server s := hl.framed hphase
    refine ⟨hne, ?_, nofun, (conns_finish_other hx).trans hconn, ?_⟩
    · rw [Server.leave_registered]
      rcases hframed.registered with hsame | hgone
      · exact hsame ▸ hregistered
      · rw [hgone, Server.mem_unregister]
        exact ⟨hregistered, hx⟩
    · rw [Server.leave_cwds, hframed.cwds fd hx]
      exact hentry

/-- The steps of a handler need nothing. -/
theorem feeds_of_handles (he : e.Handles) : l.Feeds os listenfd e := by
  cases e with
  | send | receive | finish => trivial
  | connect | pending | peer | poll | accept | acceptFailed | lost | request | dropped
  | badRequest | exit =>
    cases he

theorem not_batch_of_handles (he : e.Handles) (hstep : LoopStep listenfd l e l')
    (todo : List Int) : l.phase ≠ .batch todo := by
  intro hphase
  cases hstep with
  | send hhandling | sendFailed hhandling | receive hhandling | receiveFailed hhandling
  | finish hhandling => exact nomatch hphase.symm.trans hhandling
  | connect | pending | peer | poll | accept | acceptFailed | lost | request | dropped | overrun
  | badRequest | halt | sigpipe => cases he

end Loop

/-- The runs without waiting. -/
abbrev fluentRuns (os : Os) (listenfd : Int) (dft : Path) : System Loop Event :=
  (eventLoop listenfd dft).restrict (Loop.Feeds os listenfd)

namespace Loop

variable {os : Os} {listenfd : Int} {dft : Path} {l l' : Loop} {e : Event}

/-- In these runs a handler that runs gets to its end. -/
theorem handler_ends (h : (fluentRuns os listenfd dft).Reachable l) {x : Int} {req : Post}
    {os' : Os} {prog : Proc Post (Int × Server)} {todo : List Int}
    (hphase : l.phase = .handling x req os' prog todo) :
    ∃ l', (eventLoop listenfd dft).Path Event.Handles l l' ∧
      (fluentRuns os listenfd dft).Reachable l' ∧ l'.phase = .batch todo := by
  have ⟨_, d, hconn, hfinishes⟩ := (fluent_of_reachable h).finishes _ _ _ _ _ hphase
  have ⟨l', hpath, hend⟩ := handler_path listenfd dft hfinishes hphase hconn
  refine ⟨l', hpath, ?_, hend⟩
  exact hpath.invariant (fun _ _ _ hs he hstep => .step hs ⟨feeds_of_handles he, hstep⟩) h

/-- A run without waiting in which a client has not been got to. -/
structure Awaits (os : Os) (listenfd : Int) (dft : Path) (fd : Int) (c : Conn) (entry : Path)
    (l : Loop) : Prop where
  reachable : (fluentRuns os listenfd dft).Reachable l
  holds : l.Holds listenfd fd c entry

section Awaits

variable {fd : Int} {c : Conn} {entry : Path}

theorem Awaits.step (h : l.Awaits os listenfd dft fd c entry) (hfeeds : l.Feeds os listenfd e)
    (hserver : e.ServerOnly os) (hturn : ∀ todo, l.phase ≠ .batch (fd :: todo))
    (hstep : LoopStep listenfd l e l') : l'.Awaits os listenfd dft fd c entry where
  reachable := .step h.reachable ⟨hfeeds, hstep⟩
  holds := h.holds.step (orderly_of_reachable h.reachable.of_restrict) hserver hturn hstep

/-- The handler that runs gets to its end while the client waits. -/
theorem Awaits.handler_ends (h : l.Awaits os listenfd dft fd c entry) {x : Int} {req : Post}
    {os' : Os} {prog : Proc Post (Int × Server)} {todo : List Int}
    (hphase : l.phase = .handling x req os' prog todo) :
    ∃ l', (eventLoop listenfd dft).Path (Event.ServerOnly os) l l' ∧
      l'.Awaits os listenfd dft fd c entry ∧ l'.phase = .batch todo := by
  have ⟨l', hpath, _, hend⟩ := Loop.handler_ends h.reachable hphase
  refine ⟨l', hpath.mono (serverOnly_of_handles os), ?_, hend⟩
  refine hpath.invariant (fun _ e _ hs he hstep => ?_) h
  exact hs.step (feeds_of_handles he) (serverOnly_of_handles os e he)
    (fun todo => not_batch_of_handles he hstep (fd :: todo)) hstep

/-- The server works off the descriptor that it is at. -/
theorem Awaits.next (hos : ∀ cwd, os.chdir cwd dft = some dft)
    (h : l.Awaits os listenfd dft fd c entry) {x : Int} {todo : List Int}
    (hphase : l.phase = .batch (x :: todo)) (hx : x ≠ fd) :
    ∃ l', (eventLoop listenfd dft).Path (Event.ServerOnly os) l l' ∧
      l'.Awaits os listenfd dft fd c entry ∧ l'.phase = .batch todo := by
  have hturn : ∀ todo', l.phase ≠ .batch (fd :: todo') := by
    rintro _ hfd
    cases hphase.symm.trans hfd
    exact hx rfl
  have hmem : x ∈ l.phase.behind := by
    rw [hphase]
    exact List.mem_cons_self
  have hfluent : l.Fluent os listenfd dft := fluent_of_reachable h.reachable
  have hcwd : l.server.cwd = dft := hfluent.back _ hphase
  by_cases hlisten : x = listenfd
  · subst hlisten
    -- `accept` returns a descriptor that is not in use
    have ⟨pending, backlog, hbacklog⟩ := List.exists_cons_of_ne_nil (hfluent.listening hmem)
    have ⟨fresh, hfresh⟩ := (hfluent.finite.insert x).exists_notMem
    have hne : fresh ≠ x := fun heq => hfresh (.inl heq)
    have hnone : l.conns fresh = none := by
      by_contra hused
      exact hfresh (.inr hused)
    have hstep : LoopStep x l (.accept fresh true) _ := .accept hphase hbacklog hnone hne
    exact ⟨_, .single (e := .accept fresh true) trivial hstep,
      h.step (e := .accept fresh true) trivial trivial hturn hstep, rfl⟩
  · have ⟨d, hconn, hfed⟩ := hfluent.fed x hmem hlisten
    rcases hfed with ⟨hended, harrived⟩ | ⟨req, rest, harrived, hdropped | hserved⟩
    · have hstep : LoopStep listenfd l (.lost x) _ := .lost hphase hlisten hconn hended harrived
      exact ⟨_, .single (e := .lost x) trivial hstep,
        h.step (e := .lost x) trivial trivial hturn hstep, rfl⟩
    · rw [← hcwd] at hdropped
      have hstep : LoopStep listenfd l (.dropped x os) _ :=
        .dropped os hphase hlisten hconn harrived hdropped.1 hdropped.2
      exact ⟨_, .single (e := .dropped x os) rfl hstep,
        h.step (e := .dropped x os) trivial rfl hturn hstep, rfl⟩
    · have ⟨dir, func, hdir, hfunc, hfinishes⟩ := hserved
      rw [← hcwd, ← handlerDir_eq_clientDir] at hdir
      have hstep : LoopStep listenfd l (.request x req os) _ :=
        .request hphase hlisten hconn harrived hdir hfunc
      have hfeeds : l.Feeds os listenfd (.request x req os) := by
        refine ⟨hfluent.dftPath.symm ▸ hos, fun c' rest' dir' func' hc' ha' hd' hf' => ?_⟩
        cases hconn.symm.trans hc'
        cases harrived.symm.trans ha'
        cases hdir.symm.trans hd'
        cases hfunc.symm.trans hf'
        exact hfinishes _ rfl
      have hstart := h.step hfeeds rfl hturn hstep
      have ⟨l', hpath, hend⟩ := hstart.handler_ends rfl
      exact ⟨l', .trans (.single (e := .request x req os) rfl hstep) hpath, hend⟩

/-- The server gets to the client, or back to `epoll_wait`. -/
theorem Awaits.turn (hos : ∀ cwd, os.chdir cwd dft = some dft) {todo : List Int}
    (h : l.Awaits os listenfd dft fd c entry) (hphase : l.phase = .batch todo) :
    ∃ l', (eventLoop listenfd dft).Path (Event.ServerOnly os) l l' ∧
      l'.Awaits os listenfd dft fd c entry ∧
      (l'.phase = .batch [] ∨ ∃ todo', l'.phase = .batch (fd :: todo')) := by
  induction todo generalizing l with
  | nil => exact ⟨l, .refl l, h, .inl hphase⟩
  | cons x todo ih =>
    by_cases hx : x = fd
    · exact ⟨l, .refl l, h, .inr ⟨todo, hx ▸ hphase⟩⟩
    · have ⟨l₁, hfirst, h₁, hphase₁⟩ := h.next hos hphase hx
      have ⟨l', hrest, hend⟩ := ih h₁ hphase₁
      exact ⟨l', hfirst.trans hrest, hend⟩

end Awaits

/-- `epoll_wait` can return a ready descriptor before the others. -/
theorem exists_polls {fd : Int} (hregistered : fd ∈ l.server.registered)
    (hready : l.Ready listenfd fd) : ∃ rest, l.Polls listenfd (fd :: rest) := by
  classical
  let others := (l.server.registered.dedup.filter fun x => l.Ready listenfd x).erase fd
  have hnodup : others.Nodup := ((List.nodup_dedup _).filter _).erase fd
  have hmem : ∀ x, x ∈ others ↔ x ≠ fd ∧ x ∈ l.server.registered ∧ l.Ready listenfd x := by
    intro x
    rw [((List.nodup_dedup _).filter _).mem_erase_iff, List.mem_filter, List.mem_dedup,
      decide_eq_true_iff]
  refine ⟨others.take (maxEpoll - 1), List.cons_ne_nil _ _, ?_, fun x hx => ?_, ?_, fun hlt x hx hxready => ?_⟩
  · refine List.nodup_cons.mpr ⟨fun hfd => ?_, hnodup.sublist (List.take_sublist _ _)⟩
    exact ((hmem fd).mp (List.mem_of_mem_take hfd)).1 rfl
  · rcases List.mem_cons.mp hx with rfl | hx
    · exact ⟨hregistered, hready⟩
    · exact ((hmem x).mp (List.mem_of_mem_take hx)).2
  · rw [List.length_cons, List.length_take, maxEpoll]
    omega
  · have hmax : maxEpoll = 64 := rfl
    rw [List.length_cons, List.length_take] at hlt
    by_cases hfd : x = fd
    · exact hfd ▸ List.mem_cons_self
    · rw [List.take_of_length_le (by omega)]
      exact List.mem_cons_of_mem _ ((hmem x).mpr ⟨hfd, hx, hxready⟩)

/-! ## Requests that wait -/

/-- A whole request waits on its connection, and there is a handler for it and a
directory to run it in. -/
def Waiting (os : Os) (listenfd : Int) (l : Loop) (fd : Int) (c : Conn) (req : Post) : Prop :=
  l.Holds listenfd fd c (l.server.cwds (fd2ind fd)) ∧
  (∃ rest, arrived c.unread = .post req rest) ∧
  ∃ dir func, clientDir os l.server.dftPath (l.server.cwds (fd2ind fd)) = some dir ∧
    Server.handler os req.type = some func

/-- The server gets to the request by steps of its own.  The handler returns when
what its client has sent is enough. -/
def Serves (os : Os) (listenfd : Int) (dft : Path) (l : Loop) (fd : Int) (c : Conn)
    (req : Post) : Prop :=
  ∃ here started, (eventLoop listenfd dft).Path (Event.ServerOnly os) l here ∧
    LoopStep listenfd here (.request fd req os) started ∧
    (Fed os dft (l.server.cwds (fd2ind fd)) fd c →
      ∃ todo back, (eventLoop listenfd dft).Path (Event.ServerOnly os) started back ∧
        back.phase = .batch todo)

section Waiting

variable {fd : Int} {c : Conn} {entry : Path} {req : Post}

variable (dft) in
/-- The handler of a request that the server can work off returns. -/
theorem returns_of_request (hstep : LoopStep listenfd l (.request fd req os) l')
    (hconn : l.conns fd = some c)
    (hfed : Fed os l.server.cwd (l.server.cwds (fd2ind fd)) fd c) :
    ∃ todo back, (eventLoop listenfd dft).Path Event.Handles l' back ∧ back.phase = .batch todo := by
  cases hstep with
  | @request _ _ _ c' rest dir func todo hphase hne hconn' harrived hdir hfunc =>
    cases hconn.symm.trans hconn'
    rw [handlerDir_eq_clientDir] at hdir
    rcases hfed with ⟨_, hnone⟩ | ⟨req', rest', harrived', hdropped | hserved⟩
    · exact nomatch harrived.symm.trans hnone
    · rw [clientDir, hdropped.1] at hdir
      exact nomatch hdir.symm.trans hdropped.2
    · have ⟨dir', func', hdir', hfunc', hfinishes⟩ := hserved
      cases harrived.symm.trans harrived'
      cases hdir.symm.trans hdir'
      cases hfunc.symm.trans hfunc'
      exact ⟨todo, handler_path listenfd dft (hfinishes { l.server with cwd := dir } rfl) rfl
        (Function.update_self fd _ l.conns)⟩

/-- The server is at the client. -/
theorem Holds.served (h : l.Holds listenfd fd c entry) {todo : List Int}
    (hphase : l.phase = .batch (fd :: todo)) (hcwd : l.server.cwd = dft) {rest : List UInt8}
    (harrived : arrived c.unread = .post req rest) {dir : Path} {func : Server.Handler}
    (hdir : clientDir os dft entry = some dir) (hfunc : Server.handler os req.type = some func) :
    ∃ started, LoopStep listenfd l (.request fd req os) started ∧
      (Fed os dft entry fd c → ∃ todo back,
        (eventLoop listenfd dft).Path (Event.ServerOnly os) started back ∧
          back.phase = .batch todo) := by
  have ⟨hne, _, _, hconn, hentry⟩ := h
  have hhere : l.server.handlerDir os fd = some dir := by
    rw [handlerDir_eq_clientDir, hcwd, hentry]
    exact hdir
  have hstep : LoopStep listenfd l (.request fd req os) _ :=
    .request hphase hne hconn harrived hhere hfunc
  refine ⟨_, hstep, fun hfed => ?_⟩
  rw [← hcwd, ← hentry] at hfed
  have ⟨todo', back, hpath, hend⟩ := returns_of_request dft hstep hconn hfed
  exact ⟨todo', back, hpath.mono (serverOnly_of_handles os), hend⟩

/-- The server gets to the request of a client, from anywhere in such a run. -/
theorem Awaits.serves (hos : ∀ cwd, os.chdir cwd dft = some dft)
    (h : l.Awaits os listenfd dft fd c entry) {rest : List UInt8}
    (harrived : arrived c.unread = .post req rest) {dir : Path} {func : Server.Handler}
    (hdir : clientDir os dft entry = some dir) (hfunc : Server.handler os req.type = some func) :
    l.Serves os listenfd dft fd c req := by
  -- a handler that runs is waited for, then the rest of the batch
  have hbatch : ∃ l₁ todo, (eventLoop listenfd dft).Path (Event.ServerOnly os) l l₁ ∧
      l₁.Awaits os listenfd dft fd c entry ∧ l₁.phase = .batch todo := by
    cases hphase : l.phase with
    | batch todo => exact ⟨l, todo, .refl l, h, hphase⟩
    | handling x req' os' prog todo =>
      obtain ⟨l₁, hpath, h₁, hend⟩ := h.handler_ends hphase
      exact ⟨l₁, todo, hpath, h₁, hend⟩
    | exited => exact absurd hphase (fluent_of_reachable h.reachable).alive
  obtain ⟨l₁, todo, hfirst, h₁, hphase₁⟩ := hbatch
  obtain ⟨l₂, hsecond, h₂, hend⟩ := h₁.turn hos hphase₁
  have hpath := hfirst.trans hsecond
  have hfluent : l₂.Fluent os listenfd dft := fluent_of_reachable h₂.reachable
  rw [Serves, h.holds.entry]
  rcases hend with hidle | ⟨todo', hhere⟩
  · -- `epoll_wait` returns the client first
    have hunread : c.unread ≠ [] := by
      intro hnil
      rw [hnil, not_arrived_nil] at harrived
      cases harrived
    have hready : l₂.Ready listenfd fd := by
      rw [Ready, if_neg h.holds.ne]
      exact ⟨c, h₂.holds.conn, .inl hunread⟩
    obtain ⟨others, hpolls⟩ := exists_polls h₂.holds.registered hready
    have hpoll : LoopStep listenfd l₂ (.poll (fd :: others)) _ := .poll hidle hpolls
    have htrivial : Event.ServerOnly os (.poll (fd :: others)) := trivial
    have hpolled : (l₂.goto (.batch (fd :: others))).Holds listenfd fd c entry :=
      h₂.holds.step (orderly_of_reachable h₂.reachable.of_restrict) htrivial
        (fun _ hfd => by rw [hidle] at hfd; cases hfd) hpoll
    obtain ⟨started, hstep, hreturns⟩ :=
      hpolled.served rfl (hfluent.back _ hidle) harrived hdir hfunc
    exact ⟨_, started, hpath.trans (.single htrivial hpoll), hstep,
      hreturns⟩
  · obtain ⟨started, hstep, hreturns⟩ := h₂.holds.served hhere (hfluent.back _ hhere) harrived hdir hfunc
    exact ⟨l₂, started, hpath, hstep, hreturns⟩

end Waiting

/-! ## The server in `recv_post` -/

/-- The server has begun to read a post that its peer has not sent whole. -/
def Blocked (listenfd : Int) (l : Loop) : Prop :=
  ∃ fd c, l.phase.receiving = some fd ∧ fd ≠ listenfd ∧ l.conns fd = some c ∧
    c.ended = false ∧ arrived c.unread = .unfinished

theorem Blocked.no_step (h : l.Blocked listenfd) (hserver : e.ServerOnly os) :
    ¬ LoopStep listenfd l e l' := by
  have ⟨fd, c, hreceiving, hne, hconn, hopen, harrived⟩ := h
  intro hstep
  cases hstep with
  | connect | pending | peer => exact hserver
  | poll hphase =>
    rw [hphase] at hreceiving
    cases hreceiving
  | accept hphase | acceptFailed hphase =>
    rw [hphase] at hreceiving
    cases hreceiving
    exact hne rfl
  | lost hphase _ hconn' hended | receiveFailed hphase hconn' hended =>
    rw [hphase] at hreceiving
    cases hreceiving
    cases hconn.symm.trans hconn'
    exact nomatch hopen.symm.trans hended
  | request hphase _ hconn' harrived' | dropped _ hphase _ hconn' harrived'
  | receive hphase hconn' harrived' | badRequest _ hphase _ hconn' harrived' =>
    rw [hphase] at hreceiving
    cases hreceiving
    cases hconn.symm.trans hconn'
    exact nomatch harrived.symm.trans harrived'
  | send hphase | sendFailed hphase | finish hphase | halt hphase | sigpipe hphase =>
    rw [hphase] at hreceiving
    cases hreceiving
  | overrun hreceiving' hconn' harrived' =>
    cases hreceiving.symm.trans hreceiving'
    cases hconn.symm.trans hconn'
    exact nomatch harrived.symm.trans harrived'

/-- By itself it stays where it is. -/
theorem Blocked.path_eq (h : l.Blocked listenfd)
    (hpath : (eventLoop listenfd dft).Path (Event.ServerOnly os) l l') : l' = l := by
  induction hpath with
  | refl => rfl
  | tail _ hserver hstep ih =>
    subst ih
    exact absurd hstep (h.no_step hserver)

/-- A server that waits for one client serves nobody. -/
theorem Blocked.serves_nobody (h : l.Blocked listenfd) (fd : Int) (c : Conn) (req : Post) :
    ¬ l.Serves os listenfd dft fd c req := by
  intro ⟨here, started, hpath, hstep, _⟩
  rw [h.path_eq hpath] at hstep
  have hserver : Event.ServerOnly os (.request fd req os) := rfl
  exact h.no_step hserver hstep

end Loop

/-- **No client stalls another** as long as nothing makes the server wait: in
every state of a run in which each descriptor that `epoll_wait` returns is fed,
the server by itself gets to every request that waits, and a handler that runs
returns.  A server that has begun to read a post that is not there serves
nobody. -/
theorem no_stall {os : Os} {listenfd : Int} {dft : Path}
    (hos : ∀ cwd, os.chdir cwd dft = some dft) :
    (∀ l, (fluentRuns os listenfd dft).Reachable l →
      (∀ fd c req, l.Waiting os listenfd fd c req → l.Serves os listenfd dft fd c req) ∧
      ∃ l' todo, (eventLoop listenfd dft).Path (Event.ServerOnly os) l l' ∧
        (fluentRuns os listenfd dft).Reachable l' ∧ l'.phase = .batch todo) ∧
    ∀ l : Loop, l.Blocked listenfd → ∀ fd c req, ¬ l.Serves os listenfd dft fd c req := by
  refine ⟨fun l h => ⟨fun fd c req hwaiting => ?_, ?_⟩, fun l h => h.serves_nobody⟩
  · have ⟨hholds, ⟨rest, harrived⟩, dir, func, hdir, hfunc⟩ := hwaiting
    rw [(Loop.fluent_of_reachable h).dftPath] at hdir
    have hawaits : l.Awaits os listenfd dft fd c (l.server.cwds (fd2ind fd)) := ⟨h, hholds⟩
    exact hawaits.serves hos harrived hdir hfunc
  · cases hphase : l.phase with
    | batch todo => exact ⟨l, todo, .refl l, h, hphase⟩
    | handling x req os' prog todo =>
      have ⟨l', hpath, hreach, hend⟩ := Loop.handler_ends h hphase
      exact ⟨l', todo, hpath.mono (serverOnly_of_handles os), hreach, hend⟩
    | exited => exact absurd hphase (Loop.fluent_of_reachable h).alive

/-! ## Half a request -/

/-- A new connection with an `OPEN_REQUEST` on it. -/
def openingConn : Conn := { freshConn with unread := Post.bytes ⟨openRequest, 0, []⟩ }

/-- A new connection with one byte on it. -/
def haltingConn : Conn := { freshConn with unread := [0xC1] }

/-- A client connects and is accepted. -/
theorem oneClient_fluent {c : Conn} (hnew : c.failed = false) :
    (fluentRuns plainOs 3 (literal "/srv")).Reachable (oneClient c) := by
  have hconnect : (fluentRuns plainOs 3 (literal "/srv")).Reachable
      { Loop.start 3 (literal "/srv") with backlog := [c] } :=
    .step (e := .connect c) (.init rfl) ⟨trivial, .connect c hnew⟩
  have hpoll : (fluentRuns plainOs 3 (literal "/srv")).Reachable
      (Loop.goto { Loop.start 3 (literal "/srv") with backlog := [c] } (.batch [3])) := by
    refine .step (e := .poll [3]) hconnect ⟨fun fd hfd hne => ?_,
      .poll rfl (Loop.polls_start c)⟩
    exact absurd (List.mem_singleton.mp hfd) hne
  exact .step (e := .accept 5 true) hpoll ⟨trivial, .accept rfl rfl rfl (by decide)⟩

theorem arrived_opening : arrived openingConn.unread = .post ⟨openRequest, 0, []⟩ [] :=
  arrived_alone (Nat.zero_le _)

/-- Two clients on 5 and 6 that have sent nothing yet. -/
def twoClients : Loop :=
  ⟨⟨literal "/srv", literal "/srv", fun _ => literal "NULL", [6, 5, 3], []⟩,
    Function.update (oneClient freshConn).conns 6 (some freshConn), [], .batch []⟩

theorem twoClients_fluent : (fluentRuns plainOs 3 (literal "/srv")).Reachable twoClients := by
  have hconnect : (fluentRuns plainOs 3 (literal "/srv")).Reachable
      { oneClient freshConn with backlog := [freshConn] } :=
    .step (e := .connect freshConn) (oneClient_fluent rfl) ⟨trivial, .connect freshConn rfl⟩
  have hpolls : Loop.Polls 3 { oneClient freshConn with backlog := [freshConn] } [3] := by
    refine Loop.polls_one (List.mem_cons_of_mem _ List.mem_cons_self)
      (Loop.ready_of_backlog (List.cons_ne_nil _ _)) fun x hx hready => ?_
    rcases List.mem_cons.mp hx with rfl | hx
    · -- nothing has arrived on 5
      rw [Loop.Ready, if_neg (by decide)] at hready
      obtain ⟨c, hconn, hc⟩ := hready
      cases hconn
      exact absurd hc (by decide)
    · exact List.mem_singleton.mp hx
  have hpoll : (fluentRuns plainOs 3 (literal "/srv")).Reachable
      (Loop.goto { oneClient freshConn with backlog := [freshConn] } (.batch [3])) := by
    refine .step (e := .poll [3]) hconnect ⟨fun fd hfd hne => ?_, .poll rfl hpolls⟩
    exact absurd (List.mem_singleton.mp hfd) hne
  exact .step (e := .accept 6 true) hpoll ⟨trivial, .accept rfl rfl rfl (by decide)⟩

/-- Both clients have sent whole requests, and the server gets to both. -/
theorem no_stall_opening :
    ∃ l : Loop, (fluentRuns plainOs 3 (literal "/srv")).Reachable l ∧
      ∀ fd ∈ [(5 : Int), 6], l.conns fd = some openingConn ∧
        l.Serves plainOs 3 (literal "/srv") fd openingConn ⟨openRequest, 0, []⟩ := by
  have hfirst : (fluentRuns plainOs 3 (literal "/srv")).Reachable
      (twoClients.setConn 5 (some openingConn)) :=
    .step (e := .peer 5 (.sends openingConn.unread)) twoClients_fluent
      ⟨trivial, .peer (.sends freshConn openingConn.unread rfl) rfl⟩
  have hboth : (fluentRuns plainOs 3 (literal "/srv")).Reachable
      ((twoClients.setConn 5 (some openingConn)).setConn 6 (some openingConn)) :=
    .step (e := .peer 6 (.sends openingConn.unread)) hfirst
      ⟨trivial, .peer (.sends freshConn openingConn.unread rfl) rfl⟩
  have hconns : ∀ fd ∈ [(5 : Int), 6],
      ((twoClients.setConn 5 (some openingConn)).setConn 6 (some openingConn)).conns fd =
        some openingConn := by
    intro fd hfd
    have hclient : fd = 5 ∨ fd = 6 := by simpa using hfd
    rcases hclient with rfl | rfl
    · rfl
    · rfl
  refine ⟨_, hboth, fun fd hfd => ⟨hconns fd hfd, ?_⟩⟩
  have hne : fd ≠ 3 := by
    rintro rfl
    exact absurd hfd (by decide)
  have hregistered : fd ∈ [(6 : Int), 5, 3] := by
    revert fd
    decide
  refine ((no_stall fun _ => rfl).1 _ hboth).1 fd openingConn ⟨openRequest, 0, []⟩ ?_
  exact ⟨⟨hne, hregistered, nofun, hconns fd hfd, rfl⟩, ⟨[], arrived_opening⟩, literal "/srv", _,
    rfl, rfl⟩

/-- The client on descriptor 5 has sent one byte of a header, and the server has
turned to it. -/
def haltedByOne : Loop :=
  ⟨⟨literal "/srv", literal "/srv", fun _ => literal "NULL", [6, 5, 3], []⟩,
    Function.update (oneClient haltingConn).conns 6 (some openingConn), [], .batch [5]⟩

theorem haltedByOne_reachable : (eventLoop 3 (literal "/srv")).Reachable haltedByOne := by
  have hone := (oneClient_fluent (c := haltingConn) rfl).of_restrict
  have hconnect : (eventLoop 3 (literal "/srv")).Reachable
      { oneClient haltingConn with backlog := [openingConn] } :=
    .step (e := .connect openingConn) hone (.connect openingConn rfl)
  have hpolls : Loop.Polls 3 { oneClient haltingConn with backlog := [openingConn] } [3, 5] := by
    refine ⟨by decide, by decide, fun fd hfd => ?_, by decide, fun _ fd hfd _ => ?_⟩
    · rcases List.mem_cons.mp hfd with rfl | hfd
      · exact ⟨List.mem_cons_of_mem _ List.mem_cons_self, List.cons_ne_nil _ _⟩
      · rw [List.mem_singleton.mp hfd]
        exact ⟨List.mem_cons_self, haltingConn, rfl, .inl (List.cons_ne_nil _ _)⟩
    · rcases List.mem_cons.mp hfd with rfl | hfd
      · exact List.mem_cons_of_mem _ List.mem_cons_self
      · rw [List.mem_singleton.mp hfd]
        exact List.mem_cons_self
  have hpoll : (eventLoop 3 (literal "/srv")).Reachable
      (Loop.goto { oneClient haltingConn with backlog := [openingConn] } (.batch [3, 5])) :=
    .step (e := .poll [3, 5]) hconnect (.poll rfl hpolls)
  exact .step (e := .accept 6 true) hpoll (.accept rfl rfl rfl (by decide))

/-- The whole request on descriptor 6 is not served until the client on
descriptor 5 does something. -/
theorem half_header_stalls :
    ∃ l, (eventLoop 3 (literal "/srv")).Reachable l ∧
      l.Waiting plainOs 3 6 openingConn ⟨openRequest, 0, []⟩ ∧
      ∀ os, ¬ l.Serves os 3 (literal "/srv") 6 openingConn ⟨openRequest, 0, []⟩ := by
  have hblocked : haltedByOne.Blocked 3 := ⟨5, haltingConn, rfl, by decide, rfl, rfl, by decide⟩
  refine ⟨haltedByOne, haltedByOne_reachable, ⟨⟨by decide, List.mem_cons_self, nofun, rfl, rfl⟩,
    ⟨[], arrived_opening⟩, literal "/srv", _, rfl, rfl⟩, fun os => ?_⟩
  exact hblocked.serves_nobody 6 openingConn ⟨openRequest, 0, []⟩

end NetLabs.Ftp
