import NetLabs.Ftp.Client
import NetLabs.Lib.Contract

/-!
# The session of the client

`do_open` and `do_quit` of `ftp_client.cpp`, and what the globals `connected`,
`sock` and `prompt` say about the sockets that the client holds open.

* `ClientState` has the globals and the open descriptors, `Client.doOpen` and
  `Client.doQuit` change them, and no other command does.
* `ClientRun` adds the sessions that have been opened and not been quit.
  `ClientRun.Designates` says that the globals designate the last of them.
* `ClientRun.designates_step_iff` is the step lemma: which command, from which
  state, loses the session.  `client_session_iff` is about all runs.
-/

namespace NetLabs.Ftp

open Lib Relation

/-- The globals of the client and the sockets that its process holds open. -/
structure ClientState where
  connected : Bool
  running : Bool
  sock : Int
  prompt : List UInt8
  opened : List Int
  deriving DecidableEq, Repr

/-- What the system calls of one command return. -/
structure SocketCalls where
  socket : Int
  inetPton : Int
  connect : Int
  close : Int
  /-- `connect` fails where there is no socket. -/
  connect_neg : socket < 0 → connect < 0

def maxline : Nat := 2048

def defaultPrompt : List UInt8 := literal "Client(None)>"

/-- White space in the C locale. -/
def isSpace (b : UInt8) : Bool := b == 32 || 9 ≤ b && b ≤ 13

def isDigit (b : UInt8) : Bool := 48 ≤ b && b ≤ 57

/-- The number that the digits at the start of a string write. -/
def decimal (s : List UInt8) : Nat :=
  (s.takeWhile isDigit).foldl (fun n b => 10 * n + (b.toNat - 48)) 0

/-- What `strtol` returns for a number, which may lie beyond a `long`. -/
def toLong (n : Int) : Int := max (-2 ^ 63) (min n (2 ^ 63 - 1))

/-- `(int)strtol(s, NULL, 10)`. -/
def atoi (s : List UInt8) : Int :=
  match s.dropWhile isSpace with
  | 45 :: s => toInt (toLong (-decimal s))
  | 43 :: s => toInt (toLong (decimal s))
  | s => toInt (toLong (decimal s))

/-- A port beyond a `long`. -/
example : atoi (literal "99999999999999999999") = -1 := by decide

/-- What `sprintf` makes of `"Client(%s:%d)>"`. -/
def promptOf (ip : List UInt8) (port : Int) : List UInt8 :=
  literal "Client(" ++ ip ++ literal ":" ++ literal (toString port) ++ literal ")>"

namespace ClientState

/-- The state that the client starts in. -/
def initial : ClientState := ⟨false, true, 0, defaultPrompt, []⟩

/-- `sock = socket(..)`. -/
def openSocket (s : ClientState) (fd : Int) : ClientState :=
  { s with sock := fd, opened := if fd < 0 then s.opened else fd :: s.opened }

/-- `close(sock)`.  The descriptor is gone even when `close` reports an error. -/
def closeSocket (s : ClientState) : ClientState :=
  { s with opened := s.opened.filter (· ≠ s.sock) }

end ClientState

namespace Client

/-- The text before the first blank of the arguments of `open`. -/
def ipOf (args : List UInt8) : List UInt8 := (cString args).takeWhile (· ≠ 32)

/-- The number behind that blank. -/
def portOf (args : List UInt8) : Int := atoi ((cString args).dropWhile (· ≠ 32)).tail

variable (calls : SocketCalls)

def doOpen (args : List UInt8) (s : ClientState) : Proc Post (Int × ClientState) := do
  -- `*p = '\0'` with the null pointer that `strstr` returns
  if 32 ∉ cString args then .halt
  let s := s.openSocket calls.socket
  if calls.inetPton < 0 then return (-1, s.closeSocket)
  if calls.connect < 0 then return (-1, s.closeSocket)
  if !(← .post ⟨openRequest, 0, []⟩) then return (-1, s.closeSocket)
  let some reply ← .receive | return (-1, s.closeSocket)
  if reply.type ≠ openReply ∨ reply.status ≠ 1 then return (-1, s.closeSocket)
  -- the prompt and its terminator go to `prompt[MAXLINE]`
  if maxline ≤ (promptOf (ipOf args) (portOf args)).length then .halt
  return (0, { s with connected := true, prompt := promptOf (ipOf args) (portOf args) })

def doQuit (s : ClientState) : Proc Post (Int × ClientState) := do
  if s.connected = false then return (0, { s with running := false })
  if !(← .post ⟨quitRequest, 0, []⟩) then return (-1, s)
  let some reply ← .receive | return (-1, s)
  if reply.type ≠ quitReply then return (-1, s)
  let s := s.closeSocket
  -- the connection is closed, and `connected` is still set
  if calls.close < 0 then return (-1, s)
  return (0, { s with connected := false, prompt := defaultPrompt })

end Client

/-! ## One command -/

/-- A command line of the client. -/
inductive Line where
  | doOpen (args : List UInt8)
  | doQuit
  | other (c : Command)
  deriving DecidableEq, Repr

/-- A command with what its system calls, its sends and its receives return. -/
structure Attempt where
  line : Line
  calls : SocketCalls
  files : ClientOs
  sends : List Bool
  recvs : List (Option Post)

namespace Attempt

variable (a : Attempt) (s : ClientState)

/-- The function that the client calls. -/
def run : Proc Post (Int × ClientState) :=
  match a.line with
  | .doOpen args => Client.doOpen a.calls args s
  | .doQuit => Client.doQuit a.calls s
  | .other c => do
    let r ← c.run s.connected a.files
    return (r.code, s)

/-- The reply to the first request. -/
def reply : Option Post := Proc.answer a.sends a.recvs

/-- The `OPEN_REPLY` is accepted. -/
def OpenAccepted : Prop :=
  0 ≤ a.calls.inetPton ∧ 0 ≤ a.calls.connect ∧
    ∃ reply, a.reply = some reply ∧ reply.type = openReply ∧ reply.status = 1

/-- The `QUIT_REPLY` is accepted. -/
def QuitAccepted : Prop := ∃ reply, a.reply = some reply ∧ reply.type = quitReply

instance : Decidable a.OpenAccepted :=
  match h : a.reply with
  | none => isFalse fun ⟨_, _, reply, hreply, _⟩ => by simp [h] at hreply
  | some reply =>
    decidable_of_iff (0 ≤ a.calls.inetPton ∧ 0 ≤ a.calls.connect ∧
        reply.type = openReply ∧ reply.status = 1) (by simp [OpenAccepted, h])

instance : Decidable a.QuitAccepted :=
  match h : a.reply with
  | none => isFalse fun ⟨reply, hreply, _⟩ => by simp [h] at hreply
  | some reply => decidable_of_iff (reply.type = quitReply) (by simp [QuitAccepted, h])

end Attempt

/-- A session of the client: its socket and the prompt that names its server. -/
structure Opened where
  sock : Int
  prompt : List UInt8
  deriving DecidableEq, Repr

/-- The client and its sessions: those whose `OPEN_REPLY` has been accepted and
which have not been quit, the last one first. -/
structure ClientRun where
  state : ClientState
  sessions : List Opened
  deriving DecidableEq, Repr

namespace ClientRun

def initial : ClientRun := ⟨.initial, []⟩

/-- The sessions after a command. -/
def sessionsAfter (r : ClientRun) (a : Attempt) : List Opened :=
  match a.line with
  | .doOpen args =>
    if a.OpenAccepted then
      ⟨a.calls.socket, promptOf (Client.ipOf args) (Client.portOf args)⟩ :: r.sessions
    else r.sessions
  | .doQuit =>
    if r.state.connected = true ∧ a.QuitAccepted then
      r.sessions.filter (·.sock ≠ r.state.sock)
    else r.sessions
  | .other _ => r.sessions

/-- One command of a running client.  A new socket gets a descriptor that is
not in use. -/
inductive Step (a : Attempt) : ClientRun → ClientRun → Prop
  | mk {r : ClientRun} {s : ClientState} (code : Int) (hrunning : r.state.running = true)
      (hfresh : a.calls.socket ∉ r.state.opened)
      (hplay : (a.run r.state).play a.sends a.recvs = some (code, s)) :
      Step a r ⟨s, r.sessionsAfter a⟩

/-- `connected` holds exactly when `sock` is the one open descriptor and is that
of the last session, which the prompt names.  Without a connection no socket
is open. -/
def Designates (r : ClientRun) : Prop :=
  (r.state.connected = true ↔ ∃ session, r.sessions.head? = some session ∧
    r.state.sock = session.sock ∧ r.state.prompt = session.prompt ∧
      r.state.opened = [session.sock]) ∧
  (r.state.connected = false → r.state.opened = [])

end ClientRun

/-- The command is no `open` of a connected client, and it closes the socket of
a session that has been quit. -/
def Attempt.Sound (a : Attempt) (s : ClientState) : Prop :=
  match a.line with
  | .doOpen _ => s.connected = false
  | .doQuit => s.connected = true → a.QuitAccepted → 0 ≤ a.calls.close
  | .other _ => True

/-! ## What a command does -/

section Cases

variable {a : Attempt} {s s' : ClientState} {code : Int}

/-- An `open` that returns has opened a session, or has closed its socket. -/
theorem doOpen_cases {args : List UInt8}
    (h : (Client.doOpen a.calls args s).play a.sends a.recvs = some (code, s')) :
    a.OpenAccepted ∧
        s' = { s.openSocket a.calls.socket with
          connected := true, prompt := promptOf (Client.ipOf args) (Client.portOf args) } ∨
      ¬ a.OpenAccepted ∧ s' = (s.openSocket a.calls.socket).closeSocket := by
  by_cases hblank : 32 ∉ cString args
  · simp [Client.doOpen, hblank] at h
  by_cases hpton : a.calls.inetPton < 0
  · simp only [Client.doOpen, if_neg hblank, if_pos hpton] at h
    cases h
    exact .inr ⟨fun haccepted => absurd haccepted.1 (not_le.mpr hpton), rfl⟩
  by_cases hconnect : a.calls.connect < 0
  · simp only [Client.doOpen, if_neg hblank, if_neg hpton, if_pos hconnect] at h
    cases h
    exact .inr ⟨fun haccepted => absurd haccepted.2.1 (not_le.mpr hconnect), rfl⟩
  simp only [Client.doOpen, if_neg hblank, if_neg hpton, if_neg hconnect] at h
  rcases Proc.play_request h rfl rfl rfl with ⟨hreply, hs'⟩ | ⟨reply, hreply, h⟩
  · cases hs'
    refine .inr ⟨fun haccepted => ?_, rfl⟩
    have ⟨_, _, reply, hsome, _⟩ := haccepted
    rw [Attempt.reply, hreply] at hsome
    cases hsome
  · by_cases hbad : reply.type ≠ openReply ∨ reply.status ≠ 1
    · simp only [if_pos hbad] at h
      cases h
      refine .inr ⟨fun haccepted => ?_, rfl⟩
      have ⟨_, _, reply', hsome, htype, hstatus⟩ := haccepted
      rw [Attempt.reply, hreply] at hsome
      cases hsome
      exact hbad.elim (· htype) (· hstatus)
    · simp only [if_neg hbad] at h
      rw [not_or, not_not, not_not] at hbad
      by_cases hlong : maxline ≤ (promptOf (Client.ipOf args) (Client.portOf args)).length
      · simp [hlong] at h
      · simp only [if_neg hlong] at h
        cases h
        exact .inl ⟨⟨not_lt.mp hpton, not_lt.mp hconnect, reply, hreply, hbad⟩, rfl⟩

/-- A `quit` ends an offline client, or gets no good reply, or closes the
socket. -/
theorem doQuit_cases (h : (Client.doQuit a.calls s).play a.sends a.recvs = some (code, s')) :
    s.connected = false ∧ s' = { s with running := false } ∨
      s.connected = true ∧ ¬ a.QuitAccepted ∧ s' = s ∨
      s.connected = true ∧ a.QuitAccepted ∧
        (a.calls.close < 0 ∧ s' = s.closeSocket ∨
          0 ≤ a.calls.close ∧
            s' = { s.closeSocket with connected := false, prompt := defaultPrompt }) := by
  by_cases hoffline : s.connected = false
  · simp only [Client.doQuit, if_pos hoffline] at h
    cases h
    exact .inl ⟨hoffline, rfl⟩
  · right
    have honline : s.connected = true := by simpa using hoffline
    simp only [Client.doQuit, if_neg hoffline] at h
    rcases Proc.play_request h rfl rfl rfl with ⟨hreply, hs'⟩ | ⟨reply, hreply, h⟩
    · cases hs'
      refine .inl ⟨honline, fun ⟨reply, hsome, _⟩ => ?_, rfl⟩
      rw [Attempt.reply, hreply] at hsome
      cases hsome
    · by_cases hbad : reply.type ≠ quitReply
      · simp only [if_pos hbad] at h
        cases h
        refine .inl ⟨honline, fun ⟨reply', hsome, htype⟩ => ?_, rfl⟩
        rw [Attempt.reply, hreply] at hsome
        cases hsome
        exact hbad htype
      · simp only [if_neg hbad] at h
        refine .inr ⟨honline, ⟨reply, hreply, not_not.mp hbad⟩, ?_⟩
        by_cases hclose : a.calls.close < 0
        · simp only [if_pos hclose] at h
          cases h
          exact .inl ⟨hclose, rfl⟩
        · simp only [if_neg hclose] at h
          cases h
          exact .inr ⟨not_lt.mp hclose, rfl⟩

/-- Every other command leaves the globals and the descriptors as they are. -/
theorem other_returns {c : Command} (hline : a.line = .other c) :
    (a.run s).Returns fun x => x.2 = s := by
  rw [Attempt.run, hline]
  exact (Proc.returns_true _).bind fun _ _ => .done rfl

end Cases

/-! ## What the globals designate -/

namespace ClientRun

variable {a : Attempt} {r r' : ClientRun}

theorem designates_offline {s : ClientState} {sessions : List Opened}
    (hoffline : s.connected = false) (hopened : s.opened = []) :
    Designates ⟨s, sessions⟩ := by
  refine ⟨⟨fun hconnected => ?_, fun ⟨session, _, _, _, hone⟩ => ?_⟩, fun _ => hopened⟩
  · rw [hoffline] at hconnected
    cases hconnected
  · rw [hopened] at hone
    cases hone

/-- An online client whose `sock` is not its one open descriptor. -/
theorem not_designates_online {s : ClientState} {sessions : List Opened}
    (honline : s.connected = true) (hopened : s.opened ≠ [s.sock]) :
    ¬ Designates ⟨s, sessions⟩ := by
  intro h
  have ⟨session, _, hsock, _, hone⟩ := h.1.mp honline
  rw [hone, hsock] at hopened
  exact hopened rfl

/-- An `open` that has not opened a session leaves the descriptors as they
were. -/
theorem opened_of_failed {s : ClientState} {fd : Int} (hfresh : fd ∉ s.opened) :
    (s.openSocket fd).closeSocket.opened = s.opened := by
  have hfilter : s.opened.filter (· ≠ fd) = s.opened := by
    rw [List.filter_eq_self]
    intro x hx
    have hne : x ≠ fd := fun h => hfresh (h ▸ hx)
    simpa using hne
  by_cases hneg : fd < 0
  · simpa [ClientState.closeSocket, ClientState.openSocket, hneg] using hfilter
  · simpa [ClientState.closeSocket, ClientState.openSocket, hneg] using hfilter

theorem sessionsAfter_doOpen {args : List UInt8} (hline : a.line = .doOpen args)
    (haccepted : a.OpenAccepted) :
    r.sessionsAfter a =
      ⟨a.calls.socket, promptOf (Client.ipOf args) (Client.portOf args)⟩ :: r.sessions := by
  rw [sessionsAfter, hline]
  exact if_pos haccepted

theorem sessionsAfter_doQuit (hline : a.line = .doQuit) (hbad : ¬ a.QuitAccepted) :
    r.sessionsAfter a = r.sessions := by
  rw [sessionsAfter, hline]
  exact if_neg fun haccepted => hbad haccepted.2

/-- A new session of an offline client. -/
theorem designates_opened {s : ClientState} {sessions : List Opened} {fd : Int}
    {prompt : List UInt8} (hopened : s.opened = []) (hfd : ¬ fd < 0) :
    Designates ⟨{ s.openSocket fd with connected := true, prompt := prompt },
      ⟨fd, prompt⟩ :: sessions⟩ := by
  have hone : (s.openSocket fd).opened = [fd] := by
    rw [ClientState.openSocket, if_neg hfd, hopened]
  exact ⟨⟨fun _ => ⟨_, rfl, rfl, rfl, hone⟩, fun _ => rfl⟩, nofun⟩

/-- An `open` keeps the globals in place exactly when the client is offline. -/
theorem designates_doOpen_iff {args : List UInt8} (hline : a.line = .doOpen args)
    (h : r.Designates) (hstep : Step a r r') :
    r'.Designates ↔ r.state.connected = false := by
  cases hstep with
  | @mk s code hrunning hfresh hplay =>
    rw [Attempt.run, hline] at hplay
    have hcases := doOpen_cases hplay
    cases hconnected : r.state.connected with
    | true =>
      have ⟨session, hlast, hsock, hprompt, hopened⟩ := h.1.mp hconnected
      rw [hopened, List.mem_singleton] at hfresh
      refine iff_of_false ?_ (by simp)
      rcases hcases with ⟨haccepted, rfl⟩ | ⟨hfailed, rfl⟩
      · have hfd : ¬ a.calls.socket < 0 := fun hneg =>
          absurd (a.calls.connect_neg hneg) (not_lt.mpr haccepted.2.1)
        refine not_designates_online rfl ?_
        show (if a.calls.socket < 0 then _ else _) ≠ [a.calls.socket]
        rw [if_neg hfd, hopened]
        simp
      · refine not_designates_online hconnected ?_
        rw [opened_of_failed (by simpa [hopened] using hfresh), hopened]
        show [session.sock] ≠ [a.calls.socket]
        simpa using Ne.symm hfresh
    | false =>
      have hopened := h.2 hconnected
      refine iff_of_true ?_ rfl
      rcases hcases with ⟨haccepted, rfl⟩ | ⟨hfailed, rfl⟩
      · have hfd : ¬ a.calls.socket < 0 := fun hneg =>
          absurd (a.calls.connect_neg hneg) (not_lt.mpr haccepted.2.1)
        rw [sessionsAfter_doOpen hline haccepted]
        exact designates_opened hopened hfd
      · exact designates_offline hconnected (by rw [opened_of_failed hfresh, hopened])

/-- A `quit` keeps the globals in place exactly when it does not fail to close
the socket of a session that has been quit. -/
theorem designates_doQuit_iff (hline : a.line = .doQuit) (h : r.Designates)
    (hstep : Step a r r') :
    r'.Designates ↔ (r.state.connected = true → a.QuitAccepted → 0 ≤ a.calls.close) := by
  cases hstep with
  | @mk s code hrunning hfresh hplay =>
    rw [Attempt.run, hline] at hplay
    rcases doQuit_cases hplay with ⟨hoffline, rfl⟩ | ⟨honline, hbad, rfl⟩ |
      ⟨honline, haccepted, ⟨hclose, rfl⟩ | ⟨hclose, rfl⟩⟩
    · refine iff_of_true (designates_offline hoffline (h.2 hoffline)) fun honline => ?_
      rw [hoffline] at honline
      cases honline
    · refine iff_of_true ?_ fun _ haccepted => absurd haccepted hbad
      rw [sessionsAfter_doQuit hline hbad]
      exact h
    · refine iff_of_false ?_ fun hsound => absurd (hsound honline haccepted) (not_le.mpr hclose)
      refine not_designates_online honline fun hone => ?_
      have hmem : r.state.sock ∈ r.state.closeSocket.opened := by
        rw [hone]
        exact List.mem_singleton_self _
      simp [ClientState.closeSocket] at hmem
    · refine iff_of_true (designates_offline rfl ?_) fun _ _ => hclose
      have ⟨session, _, hsock, _, hopened⟩ := h.1.mp honline
      show r.state.closeSocket.opened = []
      simp [ClientState.closeSocket, hopened, hsock]

/-- **Step lemma**: from a state in which the globals designate the session, a
command leads to such a state exactly when it is sound. -/
theorem designates_step_iff (h : r.Designates) (hstep : Step a r r') :
    r'.Designates ↔ a.Sound r.state := by
  cases hline : a.line with
  | doOpen args =>
    rw [Attempt.Sound, hline]
    exact designates_doOpen_iff hline h hstep
  | doQuit =>
    rw [Attempt.Sound, hline]
    exact designates_doQuit_iff hline h hstep
  | other c =>
    rw [Attempt.Sound, hline]
    refine iff_of_true ?_ trivial
    cases hstep with
    | mk code hrunning hfresh hplay =>
      have hstate := (other_returns hline).play hplay
      subst hstate
      rw [sessionsAfter, hline]
      exact h

theorem initial_designates : initial.Designates :=
  designates_offline rfl rfl

/-- Commands that are sound where they are given. -/
def SoundStep (r r' : ClientRun) : Prop := ∃ a, Step a r r' ∧ a.Sound r.state

theorem designates_of_reaches (h : ReflTransGen SoundStep initial r) : r.Designates := by
  induction h with
  | refl => exact initial_designates
  | tail _ hstep ih =>
    have ⟨a, ha, hsound⟩ := hstep
    exact (designates_step_iff ih ha).mpr hsound

end ClientRun

/-- **The session of the client**: as long as no `open` is given to a connected
client and no session that has been quit fails to close, `connected`, `sock`
and `prompt` designate the last session and no other socket is open.  The
first command that is not sound ends that. -/
theorem client_session_iff {r : ClientRun}
    (h : ReflTransGen ClientRun.SoundStep ClientRun.initial r) :
    r.Designates ∧
      ∀ a r', ClientRun.Step a r r' → (r'.Designates ↔ a.Sound r.state) :=
  ⟨ClientRun.designates_of_reaches h,
    fun _ _ => ClientRun.designates_step_iff (ClientRun.designates_of_reaches h)⟩

/-! ## A second `open` -/

/-- An `open` whose system calls return these values and whose reply is good. -/
def openAttempt (socket connect : Int) (h : socket < 0 → connect < 0) : Attempt :=
  ⟨.doOpen (literal "127.0.0.1 80"), ⟨socket, 1, connect, 0, h⟩,
    ⟨fun _ => none, fun _ => none, fun _ => 0⟩, [true], [some ⟨openReply, 1, []⟩]⟩

/-- The client whose one session is on descriptor 3. -/
def onlineClient : ClientRun :=
  ⟨⟨true, true, 3, literal "Client(127.0.0.1:80)>", [3]⟩, [⟨3, literal "Client(127.0.0.1:80)>"⟩]⟩

theorem initial_step_onlineClient :
    ClientRun.Step (openAttempt 3 0 (by decide)) ClientRun.initial onlineClient :=
  .mk 0 rfl (by decide) (by decide +kernel)

/-- The session on descriptor 3 is designated. -/
theorem client_session_online :
    onlineClient.Designates ∧
      ∀ a r', ClientRun.Step a onlineClient r' → (r'.Designates ↔ a.Sound onlineClient.state) :=
  client_session_iff (.single ⟨_, initial_step_onlineClient, rfl⟩)

/-- The same client after an `open` whose `connect` has failed. -/
def lostClient : ClientRun :=
  { onlineClient with state := { onlineClient.state with sock := 4 } }

/-- The same client after an `open` that has opened a session. -/
def leakingClient : ClientRun :=
  ⟨{ onlineClient.state with sock := 4, opened := [4, 3] },
    ⟨4, literal "Client(127.0.0.1:80)>"⟩ :: onlineClient.sessions⟩

/-- After a second `open` that fails, `sock` is a closed descriptor and
`connected` is set.  After one that succeeds, descriptor 3 stays open. -/
theorem second_open_loses_session :
    (ReflTransGen (fun r r' => ∃ a, ClientRun.Step a r r') ClientRun.initial lostClient ∧
        ¬ lostClient.Designates) ∧
      ReflTransGen (fun r r' => ∃ a, ClientRun.Step a r r') ClientRun.initial leakingClient ∧
        ¬ leakingClient.Designates := by
  have hfirst : ReflTransGen (fun r r' => ∃ a, ClientRun.Step a r r') ClientRun.initial
      onlineClient := .single ⟨_, initial_step_onlineClient⟩
  have hlost : ClientRun.Step (openAttempt 4 (-1) (by decide)) onlineClient lostClient :=
    .mk (-1) rfl (by decide) (by decide +kernel)
  have hleaking : ClientRun.Step (openAttempt 4 0 (by decide)) onlineClient leakingClient :=
    .mk 0 rfl (by decide) (by decide +kernel)
  exact ⟨⟨hfirst.tail ⟨_, hlost⟩, ClientRun.not_designates_online rfl (by decide)⟩,
    hfirst.tail ⟨_, hleaking⟩, ClientRun.not_designates_online rfl (by decide)⟩

end NetLabs.Ftp
