import NetLabs.Lib.Blocks
import NetLabs.Rtp.Sender

/-!
# The receiver

`receiver.c` as a state machine, with the same conventions as the sender.  The
file buffer is uninitialised memory, so a byte of it is an `Option`, and the
file that is written may hold such bytes.  `Receiver.file` is what `write_file`
is given, `writeFile` what a disk keeps of it.
-/

namespace NetLabs.Rtp

open NetLabs.Lib

/-- What the command line and the build fix for one run. -/
structure ReceiverConfig where
  wsize : Nat
  /-- `int window[wsize]` needs at least one element. -/
  wsize_pos : 0 < wsize
  mode : Mode
  /-- Whether `LDEBUG` is defined. -/
  ldebug : Bool

/-- Where the receiver stands. -/
inductive ReceiverPc where
  /-- In the first loop of `establish_connection`. -/
  | listen
  /-- In its second loop. -/
  | synReceived
  /-- `establish_connection` has returned. -/
  | established
  /-- In the loop of `transfer_data`. -/
  | transfer
  /-- The file is written; in the first loop of `break_connection`. -/
  | finWait
  /-- At the single extra receive of `break_connection`. -/
  | finReplied
  /-- `break_connection` has returned; `main` returns normally. -/
  | closed
  deriving DecidableEq, Repr

/-- The file buffer: `none` is a byte that was never written. -/
abbrev Buffer := Nat → Option UInt8

/-- `memcpy(buf + offset, bytes, length)` -/
def Buffer.memcpy (buf : Buffer) (offset : Nat) (bytes : List UInt8) : Buffer :=
  overwrite buf offset bytes

/-- What `write_file` leaves in the file on a disk that takes `room` bytes.  `fwrite`
returns a `size_t`, so the test `fwrite(...) < 0` never holds and a short write goes
unnoticed.  Only an error of `fopen` or `fclose` makes the program exit. -/
def writeFile (room : Nat) (bytes : List (Option UInt8)) : List (Option UInt8) :=
  bytes.take room

structure Receiver where
  pc : ReceiverPc
  /-- The process has exited through `LOG_FATAL`. -/
  fatal : Bool
  tries : Nat
  sqn : UInt32
  wbase : UInt32
  shift : Nat
  fsize : Nat
  window : List Bool
  buf : Buffer
  /-- What `write_file` has been given to write. -/
  file : Option (List (Option UInt8))

namespace Receiver

variable (cfg : ReceiverConfig)

/-- The control point that a retry loop leaves the receiver in. -/
def retry (x : Receiver) (next : Receiver) : Retry → Receiver
  | .waiting tries => { x with tries }
  | .usedUp => { x with fatal := true }
  | .accepted => next

/-! ## `transfer_data` -/

/-- Entry of `transfer_data`.  The buffer is uninitialised. -/
def transferStart (x : Receiver) : Receiver :=
  { x with
    pc := .transfer
    wbase := x.sqn
    shift := 0
    fsize := 0
    window := List.replicate cfg.wsize false
    buf := fun _ => none }

/-- Leave the loop and call `write_file(filename, buf, fsize)`. -/
def transferEnd (x : Receiver) : Receiver :=
  { x with pc := .finWait, file := some (readFirst x.buf x.fsize) }

/-- The selective-repeat branch that accepts a packet into the window. -/
def acceptSr (x : Receiver) (packet : Packet) : Receiver :=
  let mov := sqnDis x.wbase packet.seqNum + x.shift
  let buf := x.buf.memcpy (mov * payloadMax) packet.payload
  let fsize :=
    if x.fsize < mov * payloadMax + packet.length then mov * payloadMax + packet.length
    else x.fsize
  let (mov, window) := updateWindow x.window cfg.wsize (mov - x.shift)
  { x with buf, fsize, window, shift := x.shift + mov, wbase := seqnumAdd x.wbase mov }

/-- The branch `if (mode)`. -/
def recvSr (x : Receiver) (packet : Packet) : Receiver × List Packet :=
  if seqnumIsIn packet.seqNum (seqnumAdd x.wbase (-(cfg.wsize : Int))) x.wbase then
    (x, [controlPacket packet.seqNum rtpAck])
  else if seqnumIsIn packet.seqNum x.wbase (seqnumAdd x.wbase cfg.wsize) then
    (acceptSr cfg x packet, [controlPacket packet.seqNum rtpAck])
  else
    (x, [])

/-- The go-back-N branch that accepts the next packet. -/
def acceptGbn (x : Receiver) (packet : Packet) : Receiver :=
  { x with
    buf := x.buf.memcpy (x.shift * payloadMax) packet.payload
    shift := x.shift + 1
    fsize := x.fsize + packet.length
    sqn := seqnumAdd x.sqn 1 }

/-- The `else` branch of `if (mode)`. -/
def recvGbn (x : Receiver) (packet : Packet) : Receiver × List Packet :=
  let x := if packet.seqNum = x.sqn then acceptGbn x packet else x
  (x, [controlPacket x.sqn rtpAck])

/-- An intact packet without flags. -/
def recvData (x : Receiver) (packet : Packet) : Receiver × List Packet :=
  match cfg.mode with
  | .sr => recvSr cfg x packet
  | .gbn => recvGbn x packet

/-- The body of the loop.  The flags are tested together with the status code,
so the FIN bit of a rejected datagram counts too. -/
def transferRecv (x : Receiver) : Recv → Receiver × List Packet
  | .timeout => (transferEnd x, [])
  | .rejected packet => if packet.flags &&& rtpFin ≠ 0 then (transferEnd x, []) else (x, [])
  | .ok packet =>
    if packet.flags &&& rtpFin ≠ 0 then
      (transferEnd x, [])
    else if packet.flags ≠ 0 then
      (x, [])
    else
      recvData cfg x packet

/-! ## `break_connection` -/

/-- The first loop: wait for a FIN.  The status code is the result of the
comparison `recv_packet(...) < 0`. -/
def finWaitRecv (x : Receiver) (r : Recv) : Receiver × List Packet :=
  let scode : Int := if r.scode < 0 then 1 else 0
  if scode = -2 then
    ({ x with fatal := true }, [])
  else
    match r with
    | .ok packet =>
      if packet.flags = rtpFin then
        ({ x with pc := .finReplied, sqn := packet.seqNum },
          [controlPacket packet.seqNum (rtpAck ||| rtpFin)])
      else
        (x, [])
    | _ => (x, [])

/-- The single extra receive.  `sqn` is overwritten before it is compared.
After a timeout the packet struct still holds the FIN, whose number is `sqn`
already. -/
def finRepliedRecv (x : Receiver) : Recv → Receiver × List Packet
  | .timeout => ({ x with pc := .closed }, [])
  | .rejected packet => ({ x with pc := .closed, sqn := packet.seqNum }, [])
  | .ok packet =>
    let sqn := packet.seqNum
    ({ x with pc := .closed, sqn },
      if packet.seqNum = sqn ∧ packet.flags = rtpFin then [controlPacket sqn (rtpAck ||| rtpFin)]
      else [])

/-! ## The whole program -/

/-- Start of `establish_connection`. -/
def start : Receiver :=
  { pc := .listen, fatal := false, tries := 0, sqn := 0, wbase := 0, shift := 0, fsize := 0,
    window := [], buf := fun _ => none, file := none }

/-- The first loop of `establish_connection`: wait for a SYN and answer it. -/
def listenRecv (x : Receiver) : Recv → Receiver × List Packet
  | .timeout => ({ x with fatal := true }, [])
  | .rejected _ => (x, [])
  | .ok packet =>
    if packet.flags = rtpSyn then
      let sqn := seqnumAdd packet.seqNum 1
      let (retry, sent) := (receiverEstablishLoop sqn).start cfg.ldebug
      let x := { x with pc := .synReceived, sqn, tries := 0 }
      (x.retry x retry, sent)
    else
      (x, [])

/-- One receive outcome. -/
def recv (x : Receiver) (r : Recv) : Option (Receiver × List Packet) :=
  match x.pc with
  | .listen => some (listenRecv cfg x r)
  | .synReceived =>
    let (retry, sent) := (receiverEstablishLoop x.sqn).recv cfg.ldebug x.tries r
    some (x.retry { x with pc := .established } retry, sent)
  | .transfer => some (transferRecv cfg x r)
  | .finWait => some (finWaitRecv x r)
  | .finReplied => some (finRepliedRecv x r)
  | _ => none

/-- One step of the receiver and the packets it sends. -/
def step (x : Receiver) (input : Input) : Option (Receiver × List Packet) :=
  if x.fatal then
    none
  else
    match input with
    | .run => if x.pc = .established then some (transferStart cfg x, []) else none
    | .recv r => recv cfg x r
    | .exit => some ({ x with fatal := true }, [])

/-! ## What one step can do -/

/-- The steps of the receiver, one constructor for each way through the code. -/
inductive Move (x : Receiver) : Input → Receiver → List Packet → Prop
  | exit : Move x .exit { x with fatal := true } []
  | listenTimeout (hpc : x.pc = .listen) : Move x (.recv .timeout) { x with fatal := true } []
  | listenSkip {r : Recv} (hpc : x.pc = .listen) : Move x (.recv r) x []
  | syn {p : Packet} (hpc : x.pc = .listen) (hflags : p.flags = rtpSyn) (tries : Nat)
      (fatal : Bool) :
      Move x (.recv (.ok p))
        { x with pc := .synReceived, sqn := seqnumAdd p.seqNum 1, tries, fatal }
        [controlPacket (seqnumAdd p.seqNum 1) (rtpAck ||| rtpSyn)]
  | synRetry {r : Recv} (hpc : x.pc = .synReceived) (tries : Nat) (fatal : Bool) :
      Move x (.recv r) { x with tries, fatal } [controlPacket x.sqn (rtpAck ||| rtpSyn)]
  | synAccept {p : Packet} (hpc : x.pc = .synReceived) (hseq : p.seqNum = x.sqn)
      (hflags : p.flags = rtpAck) :
      Move x (.recv (.ok p)) { x with pc := .established } []
  | enter (hpc : x.pc = .established) : Move x .run (transferStart cfg x) []
  | leave {r : Recv} (hpc : x.pc = .transfer) : Move x (.recv r) (transferEnd x) []
  | skip {r : Recv} (hpc : x.pc = .transfer) : Move x (.recv r) x []
  | data {p : Packet} (hpc : x.pc = .transfer) (hflags : p.flags = 0) :
      Move x (.recv (.ok p)) (recvData cfg x p).1 (recvData cfg x p).2
  | finSkip {r : Recv} (hpc : x.pc = .finWait) : Move x (.recv r) x []
  | fin {p : Packet} (hpc : x.pc = .finWait) (hflags : p.flags = rtpFin) :
      Move x (.recv (.ok p)) { x with pc := .finReplied, sqn := p.seqNum }
        [controlPacket p.seqNum (rtpAck ||| rtpFin)]
  | close {r : Recv} {sent : List Packet} (hpc : x.pc = .finReplied) (sqn : UInt32)
      (hsent : ∀ p ∈ sent, p = controlPacket sqn (rtpAck ||| rtpFin)) :
      Move x (.recv r) { x with pc := .closed, sqn } sent

/-- After sending again, only the counter and `fatal` can have changed. -/
private theorem retry_head (x next : Receiver) (tries : Nat) :
    ∃ t f, x.retry next (RetryLoop.head tries) = { x with tries := t, fatal := f } := by
  unfold RetryLoop.head
  split
  · exact ⟨x.tries, true, rfl⟩
  · exact ⟨tries, x.fatal, rfl⟩

private theorem move_of_listen {x : Receiver} {r : Recv} (hpc : x.pc = .listen) :
    Move cfg x (.recv r) (listenRecv cfg x r).1 (listenRecv cfg x r).2 := by
  cases r with
  | timeout => exact .listenTimeout hpc
  | rejected p => exact .listenSkip hpc
  | ok p =>
    simp only [listenRecv]
    split
    · rename_i hflags
      obtain ⟨t, f, hhead⟩ := retry_head
        { x with pc := .synReceived, sqn := seqnumAdd p.seqNum 1, tries := 0 }
        { x with pc := .synReceived, sqn := seqnumAdd p.seqNum 1, tries := 0 }
        (logDebugTries cfg.ldebug 0)
      simp only [RetryLoop.start, RetryLoop.send, hhead]
      exact .syn hpc hflags t f
    · exact .listenSkip hpc

private theorem move_of_transferRecv {x : Receiver} {r : Recv} (hpc : x.pc = .transfer) :
    Move cfg x (.recv r) (transferRecv cfg x r).1 (transferRecv cfg x r).2 := by
  cases r with
  | timeout => exact .leave hpc
  | rejected p =>
    simp only [transferRecv]
    split
    · exact .leave hpc
    · exact .skip hpc
  | ok p =>
    simp only [transferRecv]
    split
    · exact .leave hpc
    · split
      · exact .skip hpc
      · rename_i _ hflags
        exact .data hpc (by simpa using hflags)

private theorem move_of_finWaitRecv {x : Receiver} {r : Recv} (hpc : x.pc = .finWait) :
    Move cfg x (.recv r) (finWaitRecv x r).1 (finWaitRecv x r).2 := by
  have hscode : ¬ ((if r.scode < 0 then 1 else 0 : Int) = -2) := by split <;> simp
  simp only [finWaitRecv, if_neg hscode]
  cases r with
  | ok p =>
    simp only
    split
    · rename_i hflags
      exact .fin hpc hflags
    · exact .finSkip hpc
  | timeout => exact .finSkip hpc
  | rejected p => exact .finSkip hpc

private theorem move_of_finRepliedRecv {x : Receiver} {r : Recv} (hpc : x.pc = .finReplied) :
    Move cfg x (.recv r) (finRepliedRecv x r).1 (finRepliedRecv x r).2 := by
  cases r with
  | timeout => exact .close hpc x.sqn nofun
  | rejected p => exact .close hpc p.seqNum nofun
  | ok p =>
    refine .close hpc p.seqNum ?_
    intro q hq
    simp only [finRepliedRecv] at hq
    split at hq <;> simp_all

private theorem move_of_recv {x x' : Receiver} {r : Recv} {sent : List Packet}
    (h : recv cfg x r = some (x', sent)) : Move cfg x (.recv r) x' sent := by
  unfold recv at h
  split at h
  · rename_i hpc
    have hmove := move_of_listen cfg (r := r) hpc
    rwa [Option.some.inj h] at hmove
  · rename_i hpc
    rcases RetryLoop.recv_cases (receiverEstablishLoop x.sqn) cfg.ldebug x.tries r with
      ⟨p, rfl, hacc, hrecv⟩ | ⟨_, hrecv⟩
    · simp only [hrecv, Option.some.injEq, Prod.mk.injEq] at h
      obtain ⟨rfl, rfl⟩ := h
      simp only [receiverEstablishLoop, Bool.and_eq_true, beq_iff_eq] at hacc
      exact .synAccept hpc hacc.1 hacc.2
    · obtain ⟨t, f, hhead⟩ := retry_head x { x with pc := .established }
        (logDebugTries cfg.ldebug x.tries)
      simp only [hrecv, hhead, Option.some.injEq, Prod.mk.injEq] at h
      obtain ⟨rfl, rfl⟩ := h
      exact .synRetry hpc t f
  · rename_i hpc
    have hmove := move_of_transferRecv cfg (r := r) hpc
    rwa [Option.some.inj h] at hmove
  · rename_i hpc
    have hmove := move_of_finWaitRecv cfg (r := r) hpc
    rwa [Option.some.inj h] at hmove
  · rename_i hpc
    have hmove := move_of_finRepliedRecv cfg (r := r) hpc
    rwa [Option.some.inj h] at hmove
  · cases h

/-- Every step of a process that has not exited is one of the moves. -/
theorem move_of_step {x x' : Receiver} {input : Input} {sent : List Packet}
    (h : step cfg x input = some (x', sent)) : x.fatal = false ∧ Move cfg x input x' sent := by
  unfold step at h
  cases hfatal : x.fatal with
  | true => simp [hfatal] at h
  | false =>
    simp only [hfatal, Bool.false_eq_true, if_false] at h
    refine ⟨rfl, ?_⟩
    cases input with
    | run =>
      simp only [Option.ite_none_right_eq_some, Option.some.injEq, Prod.mk.injEq] at h
      obtain ⟨hpc, rfl, rfl⟩ := h
      exact .enter hpc
    | recv r => exact move_of_recv cfg h
    | exit =>
      simp only [Option.some.injEq, Prod.mk.injEq] at h
      obtain ⟨rfl, rfl⟩ := h
      exact .exit

/-! ## The handshake -/

/-- A SYN is answered by the second handshake. -/
theorem step_syn (seqNum : UInt32) :
    step cfg start (.recv (.ok (controlPacket seqNum rtpSyn))) =
      some ({ start with
          pc := .synReceived, tries := logDebugTries cfg.ldebug 0, sqn := seqnumAdd seqNum 1 },
        [controlPacket (seqnumAdd seqNum 1) (rtpAck ||| rtpSyn)]) := by
  cases hdebug : cfg.ldebug <;>
    simp [step, recv, start, listenRecv, RetryLoop.start, RetryLoop.send, RetryLoop.head, retry,
      logDebugTries, receiverEstablishLoop, hdebug, sendTr]

/-- The third handshake ends `establish_connection`. -/
theorem step_ack {x : Receiver} (hpc : x.pc = .synReceived) (hfatal : x.fatal = false) :
    step cfg x (.recv (.ok (controlPacket x.sqn rtpAck))) =
      some ({ x with pc := .established }, []) := by
  simp [step, recv, hpc, hfatal, RetryLoop.recv, receiverEstablishLoop, retry]

theorem step_enter {x : Receiver} (hpc : x.pc = .established) (hfatal : x.fatal = false) :
    step cfg x .run = some (transferStart cfg x, []) := by
  simp [step, hpc, hfatal]

/-- An intact packet without flags is handed to the branch of the mode. -/
theorem step_transfer_data {x : Receiver} {p : Packet} (hpc : x.pc = .transfer)
    (hfatal : x.fatal = false) (hflags : p.flags = 0) :
    step cfg x (.recv (.ok p)) = some ((recvData cfg x p).1, (recvData cfg x p).2) := by
  simp [step, recv, transferRecv, hpc, hfatal, hflags]

/-- A FIN waits in the channel while a timeout ends the transfer. -/
theorem step_transfer_timeout {x : Receiver} (hpc : x.pc = .transfer)
    (hfatal : x.fatal = false) :
    step cfg x (.recv .timeout) = some (transferEnd x, []) := by
  simp [step, recv, transferRecv, hpc, hfatal]

/-- A FIN is answered with its own number. -/
theorem step_fin {x : Receiver} (hpc : x.pc = .finWait) (hfatal : x.fatal = false)
    (seqNum : UInt32) :
    step cfg x (.recv (.ok (controlPacket seqNum rtpFin))) =
      some ({ x with pc := .finReplied, sqn := seqNum },
        [controlPacket seqNum (rtpAck ||| rtpFin)]) := by
  simp [step, recv, finWaitRecv, hpc, hfatal, Recv.scode]

theorem step_close_timeout {x : Receiver} (hpc : x.pc = .finReplied) (hfatal : x.fatal = false) :
    step cfg x (.recv .timeout) = some ({ x with pc := .closed }, []) := by
  simp [step, recv, finRepliedRecv, hpc, hfatal]

end Receiver

end NetLabs.Rtp
