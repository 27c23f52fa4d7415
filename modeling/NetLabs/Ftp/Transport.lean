import NetLabs.Ftp.Framing
import NetLabs.Ftp.InStep

/-!
# The bytes of a session

A session passes posts as units.  Every post that a command or a handler can
send fits the receiver's buffer (`run_sends`, `serve_sends`), so `recv_post` on
the bytes in flight takes exactly the post that the session takes, however the
bytes are cut (`recvPost_toLeft`, `recvPost_toRight`).
-/

namespace NetLabs.Ftp

open Lib Relation

theorem fits_nil (type status : UInt8) : Post.Fits ⟨type, status, []⟩ := Nat.zero_le _

theorem fits_argument {args : List UInt8} (h : (cString args).length < maxbuf)
    (type status : UInt8) : Post.Fits ⟨type, status, Client.argument args⟩ := by
  show (cString args ++ [0]).length ≤ maxbuf
  rw [List.length_append, List.length_singleton]
  exact h

theorem fits_readFile (ifs : Option InFile) (stale : Nat → UInt8) (type status : UInt8) :
    Post.Fits ⟨type, status, (readFile ifs stale maxbuf).2⟩ :=
  readFile_length_le ifs stale maxbuf

/-- Command output with its terminator. -/
theorem fits_output {output : List UInt8} (h : min output.length maxbuf ≠ maxbuf)
    (type status : UInt8) :
    Post.Fits ⟨type, status, output.take (min output.length maxbuf) ++ [0]⟩ := by
  show (output.take (min output.length maxbuf) ++ [0]).length ≤ maxbuf
  rw [List.length_append, List.length_take, List.length_singleton]
  omega

/-! ## The client -/

section Client

variable (connected : Bool) (os : ClientOs) {args : List UInt8}

theorem doLs_sends : (Client.doLs connected).Sends Post.Fits := by
  unfold Client.doLs
  split
  · exact .done _
  apply Proc.Sends.post (fits_nil _ _)
  intro ok
  split
  · exact .done _
  apply Proc.Sends.receive
  intro reply
  split
  · split <;> exact .done _
  · exact .done _

theorem doCd_sends (h : (cString args).length < maxbuf) :
    (Client.doCd connected args).Sends Post.Fits := by
  unfold Client.doCd
  split
  · exact .done _
  apply Proc.Sends.post (fits_argument h _ _)
  intro ok
  split
  · exact .done _
  apply Proc.Sends.receive
  intro reply
  split
  · split <;> exact .done _
  · exact .done _

theorem doGet_sends (h : (cString args).length < maxbuf) :
    (Client.doGet connected os args).Sends Post.Fits := by
  unfold Client.doGet
  split
  · exact .done _
  apply Proc.Sends.post (fits_argument h _ _)
  intro ok
  split
  · exact .done _
  apply Proc.Sends.receive
  intro reply
  split
  · split
    · exact .done _
    apply Proc.Sends.receive
    intro data
    split
    · split <;> exact .done _
    · exact .done _
  · exact .done _

theorem doPut_sends (h : (cString args).length < maxbuf) :
    (Client.doPut connected os args).Sends Post.Fits := by
  unfold Client.doPut
  split
  · exact .done _
  apply Proc.Sends.post (fits_argument h _ _)
  intro ok
  split
  · exact .done _
  apply Proc.Sends.receive
  intro reply
  split
  · split
    · exact .done _
    dsimp only
    split
    · exact .done _
    apply Proc.Sends.post (fits_readFile _ _ _ _)
    intro ok
    split <;> exact .done _
  · exact .done _

theorem doSha_sends (h : (cString args).length < maxbuf) :
    (Client.doSha connected args).Sends Post.Fits := by
  unfold Client.doSha
  split
  · exact .done _
  apply Proc.Sends.post (fits_argument h _ _)
  intro ok
  split
  · exact .done _
  apply Proc.Sends.receive
  intro reply
  split
  · split
    · exact .done _
    apply Proc.Sends.receive
    intro data
    split
    · split <;> exact .done _
    · exact .done _
  · exact .done _

/-- Every post of a command fits, when its argument does. -/
theorem run_sends {c : Issue} (h : (cString c.command.args).length < maxbuf) :
    c.run.Sends Post.Fits := by
  obtain ⟨command, os⟩ := c
  cases command with
  | ls => exact doLs_sends true
  | cd args => exact doCd_sends true h
  | get args => exact doGet_sends true os h
  | put args => exact doPut_sends true os h
  | sha args => exact doSha_sends true h

end Client

/-! ## The server -/

section Server

open Server

variable (os : Os) (fd : Int) (args : Path) (s : Server)

theorem server_doOpen_sends : (doOpen fd args s).Sends Post.Fits := by
  unfold doOpen
  apply Proc.Sends.post (fits_nil _ _)
  intro ok
  split <;> exact .done _

theorem server_doQuit_sends : (doQuit os fd args s).Sends Post.Fits := by
  unfold doQuit
  apply Proc.Sends.post (fits_nil _ _)
  intro ok
  split
  · exact .done _
  dsimp only
  split
  · exact .done _
  · exact .done _

theorem server_doLs_sends : (doLs os fd args s).Sends Post.Fits := by
  unfold doLs
  split
  · dsimp only
    split
    · exact .halt
    · rename_i hfits
      apply Proc.Sends.post (fits_output hfits _ _)
      intro ok
      split <;> exact .done _
  · exact .done _

theorem server_doCd_sends : (doCd os fd args s).Sends Post.Fits := by
  unfold doCd
  split
  · apply Proc.Sends.post (fits_nil _ _)
    intro ok
    split
    · exact .done _
    · split
      · split
        · exact .done _
        · exact .halt
      · exact .done _
  · exact .halt

theorem server_doGet_sends : (doGet os fd args s).Sends Post.Fits := by
  unfold doGet
  split
  · apply Proc.Sends.post (fits_nil _ _)
    intro ok
    split
    · exact .done _
    · split
      · exact .done _
      dsimp only
      split
      · exact .done _
      apply Proc.Sends.post (fits_readFile _ _ _ _)
      intro ok
      split <;> exact .done _
  · exact .halt

theorem server_doPut_sends : (doPut os fd args s).Sends Post.Fits := by
  unfold doPut
  apply Proc.Sends.post (fits_nil _ _)
  intro ok
  split
  · exact .done _
  apply Proc.Sends.receive
  intro data
  split
  · split
    · exact .done _
    · split <;> exact .done _
  · exact .done _

theorem server_doSha_sends : (doSha os fd args s).Sends Post.Fits := by
  unfold doSha
  split
  · apply Proc.Sends.post (fits_nil _ _)
    intro ok
    split
    · exact .done _
    · split
      · exact .done _
      · split
        · dsimp only
          split
          · exact .halt
          · split
            · split
              · exact .halt
              · rename_i hfits
                apply Proc.Sends.post (fits_output hfits _ _)
                intro ok
                split <;> exact .done _
            · exact .done _
        · exact .halt
  · exact .halt

theorem func_sends {func : Handler} (h : func ∈ funcs os) :
    (func fd args s).Sends Post.Fits := by
  simp only [funcs, List.mem_cons, List.not_mem_nil, or_false] at h
  rcases h with rfl | rfl | rfl | rfl | rfl | rfl | rfl
  · exact server_doOpen_sends _ _ _
  · exact server_doLs_sends _ _ _ _
  · exact server_doCd_sends _ _ _ _
  · exact server_doGet_sends _ _ _ _
  · exact server_doPut_sends _ _ _ _
  · exact server_doSha_sends _ _ _ _
  · exact server_doQuit_sends _ _ _ _

theorem dispatch_sends (req : Post) : (dispatch os fd req s).Sends Post.Fits := by
  unfold dispatch
  split
  · rename_i func hfunc
    unfold handler at hfunc
    split at hfunc
    · cases hfunc
    · have hmem := List.mem_of_getElem? hfunc
      exact .bind (func_sends os fd _ s hmem) fun _ => .done _
  · exact .halt

/-- Every post of an iteration of the event loop fits. -/
theorem serve_sends (req : Option Post) : (serve os fd req s).Sends Post.Fits := by
  unfold serve
  split
  · exact .done _
  · split
    · exact .halt
    · exact dispatch_sends os fd s _
    · split
      · exact .done _
      · exact dispatch_sends os fd _ _

end Server

/-! ## Posts in flight -/

section Run

variable {world : Nat → Os} {fd : Int}

theorem clientLoop_sends (r : Returned) : (clientLoop r).Sends Post.Fits := trivial

theorem serverLoop_sends (i : Nat × Server) : (serverLoop world fd i).Sends Post.Fits :=
  fun req => .bind (serve_sends _ _ _ req) fun _ => .done _

/-- Every post in flight in a run fits. -/
theorem Run.carries {r : Returned} {k : Nat} {s : Server} {cs : List Issue} {u : FtpSession}
    (hrun : Run world fd (.settled r k s) cs u)
    (hargs : ∀ c ∈ cs, (cString c.command.args).length < maxbuf) : u.Carries Post.Fits := by
  induction hrun with
  | start => exact ⟨.done _, .done _, by simp [FtpSession.settled], by simp [FtpSession.settled]⟩
  | step _ hstep ih => exact step_carries clientLoop_sends serverLoop_sends hstep (ih hargs)
  | issue c _ _ ih =>
    have hprev := ih fun d hd => hargs d (List.mem_append_left _ hd)
    have hc := run_sends (hargs c (by simp))
    exact ⟨hc, hprev.right, hprev.toLeft, hprev.toRight⟩

/-- `recv_post` on the bytes of a queue takes its first post and no byte of the
others. -/
theorem recvPost_queue {c : Calls} (hc : c.Transfers) {p : Post} {posts : List Post}
    (hfits : ∀ q ∈ p :: posts, q.Fits) (old : Post) (calls : Nat) :
    ∃ calls', recvPost c old ⟨(p :: posts).flatMap Post.bytes, calls⟩ =
      some ((p.payload.length : Int), p, ⟨posts.flatMap Post.bytes, calls'⟩) :=
  recvPost_eq hc (hfits p List.mem_cons_self) old (posts.flatMap Post.bytes) calls

/-- What the client receives, byte for byte. -/
theorem Run.recvPost_toLeft {r : Returned} {k : Nat} {s : Server} {cs : List Issue}
    {u : FtpSession} (hrun : Run world fd (.settled r k s) cs u)
    (hargs : ∀ c ∈ cs, (cString c.command.args).length < maxbuf) {p : Post} {posts : List Post}
    (hqueue : u.toLeft = p :: posts) {c : Calls} (hc : c.Transfers) (old : Post) (calls : Nat) :
    ∃ calls', recvPost c old ⟨u.toLeft.flatMap Post.bytes, calls⟩ =
      some ((p.payload.length : Int), p, ⟨posts.flatMap Post.bytes, calls'⟩) := by
  have hfits := (hrun.carries hargs).toLeft
  rw [hqueue] at hfits ⊢
  exact recvPost_queue hc hfits old calls

/-- What the server receives, byte for byte. -/
theorem Run.recvPost_toRight {r : Returned} {k : Nat} {s : Server} {cs : List Issue}
    {u : FtpSession} (hrun : Run world fd (.settled r k s) cs u)
    (hargs : ∀ c ∈ cs, (cString c.command.args).length < maxbuf) {p : Post} {posts : List Post}
    (hqueue : u.toRight = p :: posts) {c : Calls} (hc : c.Transfers) (old : Post) (calls : Nat) :
    ∃ calls', recvPost c old ⟨u.toRight.flatMap Post.bytes, calls⟩ =
      some ((p.payload.length : Int), p, ⟨posts.flatMap Post.bytes, calls'⟩) := by
  have hfits := (hrun.carries hargs).toRight
  rw [hqueue] at hfits ⊢
  exact recvPost_queue hc hfits old calls

end Run

end NetLabs.Ftp
