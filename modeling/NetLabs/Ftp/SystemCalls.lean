import NetLabs.Ftp.Transport
import NetLabs.Lib.StreamRefinement

/-!
# The calls of a session

A session passes posts, and the programs make calls of `send` and `recv`, each of
which moves a part of what it is asked to.  Here `ssend`, `srecv`, `send_post` and
`recv_post` are programs that make these calls one at a time, so the calls of the client
and of the server come in any order.

* `posts` is the codec of the two programs, and `posts_sound` says that they write and
  read the bytes of every post that fits the buffer.
* `play_sendPost` and `play_recvPost`: on given results of the calls these programs do
  what `sendPost` and `recvPost` do.
* `calls_refine_posts`: the runs of calls and the runs of posts simulate each other.
* `calls_in_step_iff`: client and server stay in step call by call exactly when they do
  post by post.
-/

namespace NetLabs.Ftp

open Lib Relation

namespace Syscall

/-! ## The programs -/

/-- The loop of `ssend` with `ret` bytes sent. -/
def ssendFrom (buf : List UInt8) (size ret : Nat) : Io UInt8 Int :=
  if ret < size then
    .send (slice buf ret (size - ret)) fun b =>
      if b = 0 then .done (-1)
      else if b < 0 then .done (-1)
      else ssendFrom buf size (ret + b.toNat)
  else .done (toInt ret)
termination_by size - ret

def ssend (buf : List UInt8) (size : Int) : Io UInt8 Int := ssendFrom buf (sizeT size) 0

/-- The loop of `srecv` with `ret` bytes in the buffer. -/
def srecvFrom (size ret : Nat) (got : List UInt8) : Io UInt8 (Int × List UInt8) :=
  if ret < size then
    .recv (size - ret) fun b bytes =>
      if b = 0 then .done (-1, got)
      else if b < 0 then .done (-1, got)
      else srecvFrom size (ret + b.toNat) (got ++ bytes)
  else .done (toInt ret, got)
termination_by size - ret

def srecv (size : Int) : Io UInt8 (Int × List UInt8) := srecvFrom (sizeT size) 0 []

def sendPost (p : Post) : Io UInt8 Int := do
  let scode ← ssend p.header.bytes headerSize
  if scode ≤ 0 then return scode
  ssend p.payload p.payload.length

/-- `old` is what `*ptype`, `*pstatus` and the buffer hold before the call. -/
def recvPost (old : Post) : Io UInt8 (Int × Post) := do
  let (scode, bytes) ← srecv headerSize
  if scode ≤ 0 then return (scode, old)
  let header := FtpHeader.ofBytes bytes
  let length := toInt (header.length - headerSize)
  let (size, buf) ← srecv length
  return (size, ⟨header.type, header.status, buf⟩)

/-- The posts on a connection; the callers take a negative result for a failure. -/
def posts : Codec UInt8 Post where
  encode := Post.bytes
  write p := do
    let scode ← sendPost p
    return decide (0 ≤ scode)
  read := do
    let (size, p) ← recvPost ⟨0, 0, []⟩
    return if size < 0 then none else some p

/-! ## What they move -/

theorem ssendFrom_writes {buf : List UInt8} {size ret : Nat} (hsize : buf.length = size)
    (hret : ret ≤ size) :
    Writes (.done (toInt size)) (buf.drop ret) (ssendFrom buf size ret) := by
  induction h : size - ret using Nat.strongRecOn generalizing ret with
  | ind n ih =>
    rw [ssendFrom]
    by_cases hlt : ret < size
    · have hslice : slice buf ret (size - ret) = buf.drop ret := by
        rw [slice, List.take_of_length_le (by rw [List.length_drop]; omega)]
      rw [if_pos hlt, hslice]
      have hleft : buf.drop ret ≠ [] := by
        rw [Ne, List.drop_eq_nil_iff]
        omega
      refine .send hleft (List.prefix_refl _) fun k hpos hk => ?_
      rw [List.length_drop] at hk
      rw [if_neg (by omega), if_neg (by omega), Int.toNat_natCast, List.drop_drop]
      exact ih (size - (ret + k)) (by omega) (by omega) rfl
    · have hend : ret = size := by omega
      subst hend
      rw [if_neg hlt, ← hsize, List.drop_length]
      exact .done

theorem srecvFrom_reads {bytes : List UInt8} {size ret : Nat} {got : List UInt8}
    (hsize : ret + bytes.length = size) :
    Reads (.done (toInt size, got ++ bytes)) bytes (srecvFrom size ret got) := by
  induction h : size - ret using Nat.strongRecOn generalizing ret got bytes with
  | ind n ih =>
    rw [srecvFrom]
    by_cases hlt : ret < size
    · rw [if_pos hlt]
      refine .recv (by omega) (by omega) fun k hpos hk => ?_
      rw [if_neg (by omega), if_neg (by omega), Int.toNat_natCast]
      have hwhole : got ++ bytes = got ++ bytes.take k ++ bytes.drop k := by
        rw [List.append_assoc, List.take_append_drop]
      rw [hwhole]
      exact ih (size - (ret + k)) (by omega) (by rw [List.length_drop]; omega) rfl
    · have hnone : bytes = [] := List.length_eq_zero_iff.mp (by omega)
      have hend : ret = size := by omega
      subst hnone hend
      rw [if_neg hlt, List.append_nil]
      exact .done

theorem ssend_writes {buf : List UInt8} (hsize : buf.length < 2 ^ 31) :
    Writes (.done (buf.length : Int)) buf (ssend buf buf.length) := by
  have hwrites := ssendFrom_writes (rfl : buf.length = buf.length) (Nat.zero_le _)
  rw [toInt_natCast hsize, List.drop_zero] at hwrites
  rwa [ssend, sizeT_natCast (by omega)]

theorem srecv_reads {bytes : List UInt8} (hsize : bytes.length < 2 ^ 31) :
    Reads (.done ((bytes.length : Int), bytes)) bytes (srecv bytes.length) := by
  have hreads : Reads (.done (toInt bytes.length, [] ++ bytes)) bytes
      (srecvFrom bytes.length 0 []) := srecvFrom_reads (Nat.zero_add bytes.length)
  rw [toInt_natCast hsize, List.nil_append] at hreads
  rwa [srecv, sizeT_natCast (by omega)]

variable {p : Post}

/-- `send_post` writes the bytes of the post and returns its payload's size. -/
theorem sendPost_writes (hp : p.Fits) :
    Writes (.done (p.payload.length : Int)) p.bytes (sendPost p) := by
  have hlt := hp.lt
  have hheader := p.header_bytes_length
  have hscode : ¬ (headerSize : Int) ≤ 0 := by decide
  have hfirst := ssend_writes (show p.header.bytes.length < 2 ^ 31 by rw [hheader]; decide)
  rw [hheader] at hfirst
  refine (hfirst.bind _).trans ?_
  rw [Io.done_bind, if_neg hscode]
  exact ssend_writes (by omega)

/-- `recv_post` reads the bytes of the post and no others. -/
theorem recvPost_reads (hp : p.Fits) (old : Post) :
    Reads (.done ((p.payload.length : Int), p)) p.bytes (recvPost old) := by
  have hlt := hp.lt
  have hheader := p.header_bytes_length
  have hscode : ¬ (headerSize : Int) ≤ 0 := by decide
  have hlength : toInt (p.header.length - headerSize) = p.payload.length := by
    rw [Post.header_length hp, Nat.cast_add, add_sub_cancel_left, toInt_natCast (by omega)]
  have hfirst := srecv_reads (show p.header.bytes.length < 2 ^ 31 by rw [hheader]; decide)
  have hsecond := srecv_reads (show p.payload.length < 2 ^ 31 by omega)
  rw [hheader] at hfirst
  refine (hfirst.bind _).trans ?_
  simp only [Io.done_bind, if_neg hscode, Post.ofBytes_header, hlength]
  exact hsecond.bind fun r => Io.done (r.1, Post.mk p.header.type p.header.status r.2)

theorem srecv_ends {size : Nat} (hpos : 0 < size) (hsize : size < 2 ^ 31) :
    AtEnd (.done (-1, [])) (srecv size) := by
  rw [srecv, sizeT_natCast (by omega), srecvFrom, if_pos hpos]
  exact ⟨_, _, rfl, rfl⟩

/-- The two programs agree on the bytes of a post. -/
theorem posts_sound : posts.Sound Post.Fits where
  writes {p} hp := by
    have hdone : decide (0 ≤ (p.payload.length : Int)) = true := decide_eq_true (by omega)
    have hwrites := (sendPost_writes hp).bind fun scode => Io.done (decide (0 ≤ scode))
    rwa [Io.done_bind, hdone] at hwrites
  reads {p} hp := by
    have hreads := (recvPost_reads hp ⟨0, 0, []⟩).bind fun r =>
      Io.done (if r.1 < 0 then none else some r.2)
    rwa [Io.done_bind, if_neg (by omega)] at hreads
  ends := by
    have hends := srecv_ends (show 0 < headerSize by decide) (by decide)
    exact (hends.bind _).bind _

/-! ## On given results of the calls -/

/-- Run a program on the successive results of its calls, as `Calls` gives them; `none`
when `recv` blocks or the process ends. -/
def play {α : Type} (sends recvs : Calls) :
    Io UInt8 α → Outgoing → Incoming → Option (α × Outgoing × Incoming)
  | .done a, out, inc => some (a, out, inc)
  | .halt, _, _ => none
  | .send buf next, out, inc =>
    let b := sends.result out.calls buf.length
    play sends recvs (next b) ⟨out.sent ++ buf.take b.toNat, out.calls + 1⟩ inc
  | .recv size next, out, inc =>
    let b := recvs.result inc.calls size
    if b ≤ 0 then play sends recvs (next b []) out { inc with calls := inc.calls + 1 }
    else if inc.unread = [] then none
    else
      let bytes := inc.unread.take b.toNat
      play sends recvs (next bytes.length bytes) out
        ⟨inc.unread.drop b.toNat, inc.calls + 1⟩

section Play

variable {α γ : Type} {sends recvs : Calls}

theorem play_bind (x : Io UInt8 α) (f : α → Io UInt8 γ) (out : Outgoing) (inc : Incoming) :
    play sends recvs (x >>= f) out inc =
      (play sends recvs x out inc).bind fun (a, out, inc) => play sends recvs (f a) out inc := by
  induction x generalizing out inc with
  | done a => rfl
  | halt => rfl
  | send buf next ih => exact ih _ _ _
  | recv size next ih =>
    simp only [Io.recv_bind, play]
    split
    · exact ih _ _ _ _
    · split
      · rfl
      · exact ih _ _ _ _

theorem play_ssendFrom {buf : List UInt8} {size ret : Nat} (hsize : buf.length = size)
    (out : Outgoing) (inc : Incoming) :
    play sends recvs (ssendFrom buf size ret) out inc =
      some ((Ftp.ssendFrom sends buf size ret out).1, (Ftp.ssendFrom sends buf size ret out).2,
        inc) := by
  induction h : size - ret using Nat.strongRecOn generalizing ret out with
  | ind n ih =>
    rw [ssendFrom, Ftp.ssendFrom]
    by_cases hlt : ret < size
    · have hlength : (slice buf ret (size - ret)).length = size - ret :=
        slice_length (by omega)
      have hrequest := sends.le_request out.calls (size - ret)
      rw [if_pos hlt, if_pos hlt, play, hlength]
      simp only
      generalize sends.result out.calls (size - ret) = b at hrequest
      by_cases hzero : b = 0
      · subst hzero
        rw [if_pos rfl, if_pos rfl, play, Int.toNat_zero, List.take_zero, List.append_nil]
      · by_cases hneg : b < 0
        · have hnone : b.toNat = 0 := by omega
          rw [if_neg hzero, if_pos hneg, if_neg hzero, if_pos hneg, hnone, play, List.take_zero,
            List.append_nil]
        · have htake : (slice buf ret (size - ret)).take b.toNat = slice buf ret b.toNat := by
            rw [slice, slice, List.take_take, Nat.min_eq_left (by omega)]
          rw [if_neg hzero, if_neg hneg, if_neg hzero, if_neg hneg, htake]
          exact ih _ (by omega) _ rfl
    · rw [if_neg hlt, if_neg hlt, play]

theorem play_srecvFrom (size : Nat) (got : List UInt8) (out : Outgoing) (inc : Incoming) :
    play sends recvs (srecvFrom size got.length got) out inc =
      (Ftp.srecvFrom recvs size got inc).map fun (r, bytes, inc) => ((r, bytes), out, inc) := by
  induction h : size - got.length using Nat.strongRecOn generalizing got inc with
  | ind n ih =>
    rw [srecvFrom, Ftp.srecvFrom]
    by_cases hlt : got.length < size
    · rw [if_pos hlt, if_pos hlt, play]
      simp only
      generalize hb : recvs.result inc.calls (size - got.length) = b
      by_cases hzero : b = 0
      · rw [if_pos (by omega), if_pos hzero, if_pos hzero]
        rfl
      · by_cases hneg : b < 0
        · rw [if_pos (by omega), if_neg hzero, if_pos hneg, if_neg hzero, if_pos hneg]
          rfl
        · rw [if_neg (by omega), if_neg hzero, if_neg hneg]
          by_cases hunread : inc.unread = []
          · rw [if_pos hunread, if_pos hunread]
            rfl
          · have hpos := List.length_pos_iff.mpr hunread
            have htaken : (inc.unread.take b.toNat).length ≠ 0 := by
              rw [List.length_take]
              omega
            rw [if_neg hunread, if_neg hunread, if_neg (by omega), if_neg (by omega),
              Int.toNat_natCast, ← List.length_append]
            exact ih _ (by rw [List.length_append]; omega) _ _ rfl
    · rw [if_neg hlt, if_neg hlt]
      rfl

/-- The program of `send_post` does what `send_post` does. -/
theorem play_sendPost {p : Post} (hsize : p.payload.length < 2 ^ 32) (out : Outgoing)
    (inc : Incoming) :
    play sends recvs (sendPost p) out inc =
      some ((Ftp.sendPost sends out p).1, (Ftp.sendPost sends out p).2, inc) := by
  have hheader : p.header.bytes.length = sizeT headerSize := p.header_bytes_length
  rw [sendPost, play_bind, ssend, play_ssendFrom hheader, Ftp.sendPost, Ftp.ssend]
  simp only [Option.bind_some]
  by_cases hfailed : (Ftp.ssendFrom sends p.header.bytes (sizeT headerSize) 0 out).1 ≤ 0
  · rw [if_pos hfailed, if_pos hfailed]
    rfl
  · rw [if_neg hfailed, if_neg hfailed, ssend, play_ssendFrom (sizeT_natCast hsize).symm]
    rfl

theorem play_srecv (size : Int) (out : Outgoing) (inc : Incoming) :
    play sends recvs (srecv size) out inc =
      (Ftp.srecv recvs size inc).map fun (r, bytes, inc) => ((r, bytes), out, inc) :=
  play_srecvFrom (sizeT size) [] out inc

/-- The program of `recv_post` does what `recv_post` does. -/
theorem play_recvPost (old : Post) (out : Outgoing) (inc : Incoming) :
    play sends recvs (recvPost old) out inc =
      (Ftp.recvPost recvs old inc).map fun (size, p, inc) => ((size, p), out, inc) := by
  rw [recvPost, play_bind, play_srecv, Ftp.recvPost]
  cases Ftp.srecv recvs headerSize inc with
  | none => rfl
  | some header =>
    obtain ⟨scode, bytes, later⟩ := header
    simp only [Option.map_some, Option.bind_some, Option.bind_eq_bind]
    by_cases hfailed : scode ≤ 0
    · rw [if_pos hfailed, if_pos hfailed]
      rfl
    · rw [if_neg hfailed, if_neg hfailed, play_bind, play_srecv]
      cases Ftp.srecv recvs (toInt ((FtpHeader.ofBytes bytes).length - headerSize)) later with
      | none => rfl
      | some payload => rfl

end Play

end Syscall

/-! ## Sessions of calls -/

open Syscall

/-- The client, the server with the number of iterations it has made, and the bytes on
their way. -/
abbrev CallSession := Session UInt8 (Io UInt8 Returned) (Io UInt8 (Nat × Server))

/-- One call of either side, in any order. -/
abbrev FtpCallStep (world : Nat → Os) (fd : Int) : CallSession → CallSession → Prop :=
  posts.Step clientLoop (serverLoop world fd)

/-- The client is at its prompt, the server in its event loop after `k` iterations, and
no byte is on its way. -/
def CallSession.settled (r : Returned) (k : Nat) (s : Server) : CallSession :=
  ⟨.done r, .done (k, s), [], []⟩

def CallSession.issue (w : CallSession) (c : Issue) : CallSession :=
  { w with left := posts.compile c.run }

variable (world : Nat → Os) (fd : Int)

/-- The runs from `start` and the commands issued in them. -/
inductive CallRun (start : CallSession) : List Issue → CallSession → Prop
  | start : CallRun start [] start
  | step {cs : List Issue} {w z : CallSession} (hrun : CallRun start cs w)
      (hstep : FtpCallStep world fd w z) : CallRun start cs z
  | issue {cs : List Issue} {w : CallSession} {r : Returned} (c : Issue)
      (hrun : CallRun start cs w) (hprompt : w.left = .done r) :
      CallRun start (cs ++ [c]) (w.issue c)

/-- Left alone, the session settles after iteration `n`. -/
structure CallsSettle (n : Nat) (w : CallSession) : Prop where
  ends : Acc (fun z w => FtpCallStep world fd w z) w
  settled : ∀ z, ReflTransGen (FtpCallStep world fd) w z → Stuck (FtpCallStep world fd) z →
    ∃ r s, z = .settled r n s

/-- All states in all runs of the commands, and of the first few of them, settle. -/
def CallsInStep (r : Returned) (k : Nat) (s : Server) (cs : List Issue) : Prop :=
  ∀ pre, pre <+: cs → ∀ w, CallRun world fd (.settled r k s) pre w →
    CallsSettle world fd (k + pre.length) w

/-- The session of posts that a session of calls stands for. -/
def CallSession.Refines (w : CallSession) (u : FtpSession) : Prop :=
  ∃ n, Codec.Refines posts Post.Fits clientLoop (serverLoop world fd) n w u

variable {world fd}

/-- Each run of calls stands for a run of posts. -/
theorem CallRun.refines {r : Returned} {k : Nat} {s : Server} {cs : List Issue} {w : CallSession}
    (hrun : CallRun world fd (.settled r k s) cs w)
    (hargs : ∀ c ∈ cs, (cString c.command.args).length < maxbuf) :
    ∃ u, Run world fd (.settled r k s) cs u ∧ w.Refines world fd u := by
  induction hrun with
  | start =>
    have hstart : Run world fd (.settled r k s) [] (.settled r k s) := .start
    exact ⟨_, hstart, Codec.refines_clean (hstart.carries hargs)⟩
  | step _ hstep ih =>
    obtain ⟨u, hu, n, href⟩ := ih hargs
    rcases href.step posts_sound clientLoop_sends serverLoop_sends hstep with
      ⟨m, _, hsame⟩ | ⟨m, v, huv, hv⟩
    · exact ⟨u, hu, m, hsame⟩
    · exact ⟨v, hu.step huv, m, hv⟩
  | issue c _ hprompt ih =>
    obtain ⟨u, hu, n, href⟩ := ih fun d hd => hargs d (List.mem_append_left _ hd)
    obtain ⟨hleft, href'⟩ := href.start_left posts_sound hprompt (run_sends (hargs c (by simp)))
    exact ⟨u.issue c, hu.issue c hleft, href'⟩

theorem CallRun.path {start w z : CallSession} {cs : List Issue}
    (hrun : CallRun world fd start cs w) (hpath : ReflTransGen (FtpCallStep world fd) w z) :
    CallRun world fd start cs z := by
  induction hpath with
  | refl => exact hrun
  | tail _ hstep ih => exact ih.step hstep

/-- Each run of posts is made by a run of calls. -/
theorem Run.calls {r : Returned} {k : Nat} {s : Server} {cs : List Issue} {u : FtpSession}
    (hrun : Run world fd (.settled r k s) cs u)
    (hargs : ∀ c ∈ cs, (cString c.command.args).length < maxbuf) :
    CallRun world fd (.settled r k s) cs (posts.clean u) := by
  induction hrun with
  | start => exact .start
  | step hrun hstep ih =>
    have hpath := posts_sound.clean_reaches clientLoop_sends serverLoop_sends (hrun.carries hargs)
      hstep
    exact (ih hargs).path hpath.to_reflTransGen
  | @issue _ u r c _ hprompt ih =>
    have hleft : (posts.clean u).left = .done r := congrArg posts.compile hprompt
    exact .issue c (ih fun d hd => hargs d (List.mem_append_left _ hd)) hleft

/-- The runs of calls and the runs of posts stand for each other. -/
theorem calls_refine_posts (world : Nat → Os) (fd : Int) (r : Returned) (k : Nat) (s : Server)
    (cs : List Issue) (hargs : ∀ c ∈ cs, (cString c.command.args).length < maxbuf) :
    (∀ w, CallRun world fd (.settled r k s) cs w →
        ∃ u, Run world fd (.settled r k s) cs u ∧ w.Refines world fd u) ∧
      ∀ u, Run world fd (.settled r k s) cs u →
        CallRun world fd (.settled r k s) cs (posts.clean u) :=
  ⟨fun _ hrun => hrun.refines hargs, fun _ hrun => hrun.calls hargs⟩

/-- `put a` on a client that has no file. -/
def putMissing : Issue := ⟨.put (literal "a"), ⟨fun _ => none, fun _ => none, fun _ => 0⟩⟩

theorem putMissing_fits : ∀ c ∈ [putMissing], (cString c.command.args).length < maxbuf := by
  simp only [List.mem_singleton, forall_eq]
  decide

/-- The bytes of its request, in one call for the header and one for the name. -/
theorem calls_refine_posts_put :
    ∃ w, CallRun (fun _ => plainOs) 5 (.settled ⟨0, none, []⟩ 0 openedServer) [putMissing] w ∧
      w.toRight = Post.bytes ⟨putRequest, 0, [97, 0]⟩ ∧
      ∃ u, Run (fun _ => plainOs) 5 (.settled ⟨0, none, []⟩ 0 openedServer) [putMissing] u ∧
        w.Refines (fun _ => plainOs) 5 u := by
  have hrun : Run (fun _ => plainOs) 5 (.settled ⟨0, none, []⟩ 0 openedServer) [putMissing]
      ((FtpSession.settled ⟨0, none, []⟩ 0 openedServer).issue putMissing) := .issue _ .start rfl
  replace hrun := hrun.step (.left rfl)
  obtain ⟨hcalls, hposts⟩ := calls_refine_posts (fun _ => plainOs) 5 ⟨0, none, []⟩ 0 openedServer
    [putMissing] putMissing_fits
  have hw := hposts _ hrun
  exact ⟨_, hw, List.append_nil _, hcalls _ hw⟩

/-- What settles post by post settles call by call. -/
theorem CallsSettle.of_posts {n : Nat} {w : CallSession} {u : FtpSession}
    (href : w.Refines world fd u) (h : Settles world fd n u) : CallsSettle world fd n w where
  ends := by
    obtain ⟨m, href⟩ := href
    exact href.acc posts_sound clientLoop_sends serverLoop_sends h.ends
  settled z hreach hstuck := by
    obtain ⟨m, href⟩ := href
    obtain ⟨m', v, huv, hv⟩ := href.reaches posts_sound clientLoop_sends serverLoop_sends hreach
    obtain ⟨hstuck', rfl⟩ := hv.stuck posts_sound clientLoop_sends serverLoop_sends hstuck
    obtain ⟨r, s, rfl⟩ := h.settled v huv hstuck'
    exact ⟨r, s, rfl⟩

/-- What settles call by call settles post by post. -/
theorem CallsSettle.settles {n : Nat} {u : FtpSession} (hu : u.Carries Post.Fits)
    (h : CallsSettle world fd n (posts.clean u)) : Settles world fd n u where
  ends := posts_sound.acc_of_clean clientLoop_sends serverLoop_sends hu h.ends
  settled v huv hstuck := by
    obtain ⟨hv, hreach⟩ :=
      posts_sound.clean_reaches_star clientLoop_sends serverLoop_sends hu huv
    have hstuck' := posts_sound.clean_stuck clientLoop_sends serverLoop_sends hv hstuck
    obtain ⟨r, s, hsettled⟩ := h.settled _ hreach hstuck'
    exact ⟨r, s, posts_sound.of_clean hv hsettled⟩

/-- Client and server stay in step call by call, however the calls cut the posts and
whatever order they come in, exactly when they stay in step post by post. -/
theorem calls_in_step_iff (world : Nat → Os) (fd : Int) (r : Returned) (k : Nat) (s : Server)
    (cs : List Issue) (hargs : ∀ c ∈ cs, (cString c.command.args).length < maxbuf) :
    CallsInStep world fd r k s cs ↔ InStep world fd r k s cs := by
  have hfits : ∀ pre, pre <+: cs → ∀ c ∈ pre, (cString c.command.args).length < maxbuf :=
    fun pre hpre c hc => hargs c (hpre.subset hc)
  constructor
  · intro h pre hpre u hu
    have hcarries := hu.carries (hfits pre hpre)
    exact (h pre hpre _ (hu.calls (hfits pre hpre))).settles hcarries
  · intro h pre hpre w hw
    obtain ⟨u, hu, href⟩ := hw.refines (hfits pre hpre)
    exact .of_posts href (h pre hpre u hu)

/-- The server waits for the file that does not come. -/
theorem calls_out_of_step_put :
    ¬ CallsInStep (fun _ => plainOs) 5 ⟨0, none, []⟩ 0 openedServer [putMissing] := by
  rw [calls_in_step_iff _ _ _ _ _ _ putMissing_fits]
  refine not_inStep_of_first ?_ _ _
  intro ⟨dir, _, file, hfile, _⟩
  cases hfile

end NetLabs.Ftp
