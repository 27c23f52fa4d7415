import NetLabs.Rtp.Retry
import NetLabs.Rtp.Window

/-!
# The sender

`sender.c` as a state machine.  A state stands for the program stopped at a
call of `recv_packet`, or between two of the functions that `main` calls.  One
step consumes one receive outcome and runs the code up to the next stop.

The locals of `transfer_data` are fields of the state.  They keep their last
value after the function has returned.
-/

namespace NetLabs.Rtp

/-- What the command line, the file system and the build fix for one run. -/
structure SenderConfig where
  /-- The number that `get_random_seqnum` returns. -/
  isn : UInt32
  /-- The contents of the file to send. -/
  file : List UInt8
  wsize : Nat
  /-- `int window[wsize]` needs at least one element. -/
  wsize_pos : 0 < wsize
  mode : Mode
  /-- Whether `LDEBUG` is defined. -/
  ldebug : Bool

namespace SenderConfig

variable (cfg : SenderConfig)

/-- `read_file(filename, buf, MAXBUF)` -/
def buf : List UInt8 := cfg.file.take maxbuf

def fsize : Nat := cfg.buf.length

def tsize : Nat := cfg.fsize % payloadMax

def npacket : Nat := (cfg.fsize + payloadMax - 1) / payloadMax

/-- `dsize = shift + i == npacket - 1 ? tsize : PAYLOAD_MAX` for packet
`k = shift + i`. -/
def dsize (k : Nat) : Nat := if k = cfg.npacket - 1 then cfg.tsize else payloadMax

/-- The `dsize` bytes of the buffer from `k * PAYLOAD_MAX` on. -/
def payload (k : Nat) : List UInt8 := (cfg.buf.drop (k * payloadMax)).take (cfg.dsize k)

/-- The data packet that carries payload `k` under the number `seqnum`. -/
def dataPacket (seqnum : UInt32) (k : Nat) : Packet :=
  { seqNum := seqnum, flags := 0, payload := cfg.payload k }

end SenderConfig

/-- Where the sender stands. -/
inductive SenderPc where
  /-- In the loop of `establish_connection`. -/
  | synSent
  /-- At the single extra receive of `establish_connection`. -/
  | ackSent
  /-- `establish_connection` has returned. -/
  | established
  /-- In the loop of `transfer_data`. -/
  | transfer
  /-- `transfer_data` has returned. -/
  | transferred
  /-- In the loop of `break_connection`. -/
  | finSent
  /-- `break_connection` has returned; `main` returns normally. -/
  | closed
  deriving DecidableEq, Repr

structure Sender where
  pc : SenderPc
  /-- The process has exited through `LOG_FATAL`. -/
  fatal : Bool
  tries : Nat
  sqn : UInt32
  wbase : UInt32
  shift : Nat
  window : List Bool
  deriving DecidableEq, Repr

/-- What can happen to a process: it runs on between two functions, it gets a
receive outcome, or a system call fails and it exits. -/
inductive Input where
  | run
  | recv (r : Recv)
  | exit
  deriving DecidableEq, Repr

namespace Sender

variable (cfg : SenderConfig)

/-- The control point that a retry loop leaves the sender in. -/
def retry (x : Sender) (next : Sender) : Retry → Sender
  | .waiting tries => { x with tries }
  | .usedUp => { x with fatal := true }
  | .accepted => next

/-! ## `transfer_data` -/

/-- The loop that sends one batch:
`for (i = 0; i < wsize && i + shift < npacket; ++i)`. -/
def sendBatch (shift : Nat) : (fuel i : Nat) → (sqn : UInt32) → UInt32 × List Packet
  | 0, _, sqn => (sqn, [])
  | fuel + 1, i, sqn =>
    if i < cfg.wsize ∧ i + shift < cfg.npacket then
      let (sqn', rest) := sendBatch shift fuel (i + 1) (seqnumAdd sqn 1)
      (sqn', cfg.dataPacket sqn (shift + i) :: rest)
    else
      (sqn, [])

/-- The loop that sends again after a timeout:
`for (i = 0; seqnum_add(wbase, i) < sqn; ++i)`. -/
def resend (x : Sender) : (fuel i : Nat) → List Packet
  | 0, _ => []
  | fuel + 1, i =>
    if seqnumAdd x.wbase i < x.sqn then
      if cfg.mode = .sr ∧ x.window.getD i false then
        resend x fuel (i + 1)
      else
        cfg.dataPacket (seqnumAdd x.wbase i) (x.shift + i) :: resend x fuel (i + 1)
    else
      []

/-- The head of the loop `while (shift < npacket)` and, when nothing is
outstanding, the next batch. -/
def transferLoop (x : Sender) : Sender × List Packet :=
  if x.shift < cfg.npacket then
    if x.wbase = x.sqn then
      let (sqn, sent) := sendBatch cfg x.shift (cfg.npacket - x.shift) 0 x.sqn
      ({ x with pc := .transfer, sqn }, sent)
    else
      ({ x with pc := .transfer }, [])
  else
    ({ x with pc := .transferred }, [])

/-- Entry of `transfer_data`. -/
def transferStart (x : Sender) : Sender × List Packet :=
  transferLoop cfg
    { x with wbase := x.sqn, shift := 0, window := List.replicate cfg.wsize false }

/-- The acknowledgement branch: where `mov` comes from, and the window that
`update_window` leaves behind. -/
def acknowledge (x : Sender) (seqnum : UInt32) : Nat × List Bool :=
  match cfg.mode with
  | .sr => updateWindow x.window cfg.wsize (sqnDis x.wbase seqnum)
  | .gbn => (sqnDis x.wbase seqnum + 1, x.window)

/-- The body of the loop after `recv_packet`, and the way back to its head. -/
def transferRecv (x : Sender) : Recv → Sender × List Packet
  | .timeout =>
    let resent := resend cfg x (sqnDis x.wbase x.sqn) 0
    let (x', sent) := transferLoop cfg x
    (x', resent ++ sent)
  | .rejected _ => transferLoop cfg x
  | .ok packet =>
    if packet.flags ≠ rtpAck then
      transferLoop cfg x
    else
      let seqnum := seqnumAdd packet.seqNum (-((cfg.mode.toNat ^^^ 1 : Nat) : Int))
      if !seqnumIsIn seqnum x.wbase x.sqn then
        transferLoop cfg x
      else
        let (mov, window) := acknowledge cfg x seqnum
        transferLoop cfg
          { x with window, shift := x.shift + mov, wbase := seqnumAdd x.wbase mov }

/-! ## The whole program -/

/-- Start of `establish_connection`: the first SYN is on its way. -/
def start : Sender × List Packet :=
  let x : Sender :=
    { pc := .synSent, fatal := false, tries := 0, sqn := cfg.isn, wbase := cfg.isn, shift := 0,
      window := [] }
  let (retry, sent) := (senderEstablishLoop cfg.isn).start cfg.ldebug
  (x.retry x retry, sent)

/-- Run on from the end of one function to the first receive of the next. -/
def run (x : Sender) : Option (Sender × List Packet) :=
  match x.pc with
  | .established => some (transferStart cfg x)
  | .transferred =>
    let (retry, sent) := (senderBreakLoop x.sqn).start cfg.ldebug
    let x := { x with pc := .finSent, tries := 0 }
    some (x.retry x retry, sent)
  | _ => none

/-- One receive outcome. -/
def recv (x : Sender) (r : Recv) : Option (Sender × List Packet) :=
  match x.pc with
  | .synSent =>
    let (retry, sent) := (senderEstablishLoop x.sqn).recv cfg.ldebug x.tries r
    let sqn := seqnumAdd x.sqn 1
    some (x.retry { x with pc := .ackSent, sqn } retry,
      sent ++ if retry = .accepted then [controlPacket sqn rtpAck] else [])
  | .ackSent =>
    some ({ x with pc := .established },
      match r with
      | .ok p =>
        if p.seqNum = x.sqn ∧ p.flags = rtpAck ||| rtpSyn then [controlPacket x.sqn rtpAck] else []
      | _ => [])
  | .transfer => some (transferRecv cfg x r)
  | .finSent =>
    let (retry, sent) := (senderBreakLoop x.sqn).recv cfg.ldebug x.tries r
    some (x.retry { x with pc := .closed } retry, sent)
  | _ => none

/-- One step of the sender and the packets it sends. -/
def step (x : Sender) (input : Input) : Option (Sender × List Packet) :=
  if x.fatal then
    none
  else
    match input with
    | .run => run cfg x
    | .recv r => recv cfg x r
    | .exit => some ({ x with fatal := true }, [])

/-! ## What one step can do -/

/-- The steps of the sender, one constructor for each way through the code.
The two branches of a retry loop that send again differ only in the counter and
in whether the retries are used up. -/
inductive Move (x : Sender) : Input → Sender → List Packet → Prop
  | exit : Move x .exit { x with fatal := true } []
  | synRetry {r : Recv} (hpc : x.pc = .synSent) (tries : Nat) (fatal : Bool) :
      Move x (.recv r) { x with tries, fatal } [controlPacket x.sqn rtpSyn]
  | synAccept {p : Packet} (hpc : x.pc = .synSent) (hseq : p.seqNum = seqnumAdd x.sqn 1)
      (hflags : p.flags = rtpAck ||| rtpSyn) :
      Move x (.recv (.ok p)) { x with pc := .ackSent, sqn := seqnumAdd x.sqn 1 }
        [controlPacket (seqnumAdd x.sqn 1) rtpAck]
  | confirm {r : Recv} {sent : List Packet} (hpc : x.pc = .ackSent)
      (hsent : ∀ p ∈ sent, p = controlPacket x.sqn rtpAck) :
      Move x (.recv r) { x with pc := .established } sent
  | enter (hpc : x.pc = .established) :
      Move x .run (transferStart cfg x).1 (transferStart cfg x).2
  | transfer {r : Recv} (hpc : x.pc = .transfer) :
      Move x (.recv r) (transferRecv cfg x r).1 (transferRecv cfg x r).2
  | fin (hpc : x.pc = .transferred) (tries : Nat) (fatal : Bool) :
      Move x .run { x with pc := .finSent, tries, fatal } [controlPacket x.sqn rtpFin]
  | finRetry {r : Recv} (hpc : x.pc = .finSent) (tries : Nat) (fatal : Bool) :
      Move x (.recv r) { x with tries, fatal } [controlPacket x.sqn rtpFin]
  | finAccept {p : Packet} (hpc : x.pc = .finSent) (hseq : p.seqNum = x.sqn)
      (hflags : p.flags = rtpAck ||| rtpFin) :
      Move x (.recv (.ok p)) { x with pc := .closed } []

/-- After sending again, only the counter and `fatal` can have changed. -/
private theorem retry_head (x next : Sender) (tries : Nat) :
    ∃ t f, x.retry next (RetryLoop.head tries) = { x with tries := t, fatal := f } := by
  unfold RetryLoop.head
  split
  · exact ⟨x.tries, true, rfl⟩
  · exact ⟨tries, x.fatal, rfl⟩

private theorem move_of_recv {x x' : Sender} {r : Recv} {sent : List Packet}
    (h : recv cfg x r = some (x', sent)) : Move cfg x (.recv r) x' sent := by
  unfold recv at h
  split at h
  · rename_i hpc
    rcases RetryLoop.recv_cases (senderEstablishLoop x.sqn) cfg.ldebug x.tries r with
      ⟨p, rfl, hacc, hrecv⟩ | ⟨_, hrecv⟩
    · simp only [hrecv, Option.some.injEq, Prod.mk.injEq] at h
      obtain ⟨rfl, rfl⟩ := h
      simp only [senderEstablishLoop, Bool.and_eq_true, beq_iff_eq] at hacc
      exact .synAccept hpc hacc.1 hacc.2
    · obtain ⟨t, f, hhead⟩ := retry_head x { x with pc := .ackSent, sqn := seqnumAdd x.sqn 1 }
        (logDebugTries cfg.ldebug x.tries)
      have hnot : RetryLoop.head (logDebugTries cfg.ldebug x.tries) ≠ .accepted := by
        unfold RetryLoop.head
        split <;> simp
      simp only [hrecv, hhead, if_neg hnot, Option.some.injEq, Prod.mk.injEq] at h
      obtain ⟨rfl, rfl⟩ := h
      exact .synRetry hpc t f
  · rename_i hpc
    simp only [Option.some.injEq, Prod.mk.injEq] at h
    obtain ⟨rfl, rfl⟩ := h
    refine .confirm hpc ?_
    split
    · split <;> simp
    · simp
  · rename_i hpc
    simp only [Option.some.injEq] at h
    have hmove : Move cfg x (.recv r) (transferRecv cfg x r).1 (transferRecv cfg x r).2 :=
      .transfer hpc
    rwa [h] at hmove
  · rename_i hpc
    rcases RetryLoop.recv_cases (senderBreakLoop x.sqn) cfg.ldebug x.tries r with
      ⟨p, rfl, hacc, hrecv⟩ | ⟨_, hrecv⟩
    · simp only [hrecv, Option.some.injEq, Prod.mk.injEq] at h
      obtain ⟨rfl, rfl⟩ := h
      simp only [senderBreakLoop, Bool.and_eq_true, beq_iff_eq] at hacc
      exact .finAccept hpc hacc.1 hacc.2
    · obtain ⟨t, f, hhead⟩ := retry_head x { x with pc := .closed }
        (logDebugTries cfg.ldebug x.tries)
      simp only [hrecv, hhead, Option.some.injEq, Prod.mk.injEq] at h
      obtain ⟨rfl, rfl⟩ := h
      exact .finRetry hpc t f
  · cases h

private theorem move_of_run {x x' : Sender} {sent : List Packet}
    (h : run cfg x = some (x', sent)) : Move cfg x .run x' sent := by
  unfold run at h
  split at h
  · rename_i hpc
    simp only [Option.some.injEq] at h
    have hmove : Move cfg x .run (transferStart cfg x).1 (transferStart cfg x).2 := .enter hpc
    rwa [h] at hmove
  · rename_i hpc
    obtain ⟨t, f, hhead⟩ := retry_head { x with pc := .finSent, tries := 0 }
      { x with pc := .finSent, tries := 0 } (logDebugTries cfg.ldebug 0)
    simp only [RetryLoop.start, RetryLoop.send, hhead, Option.some.injEq, Prod.mk.injEq] at h
    obtain ⟨rfl, rfl⟩ := h
    exact .fin hpc t f
  · cases h

/-- Every step of a process that has not exited is one of the moves. -/
theorem move_of_step {x x' : Sender} {input : Input} {sent : List Packet}
    (h : step cfg x input = some (x', sent)) : x.fatal = false ∧ Move cfg x input x' sent := by
  unfold step at h
  cases hfatal : x.fatal with
  | true => simp [hfatal] at h
  | false =>
    simp only [hfatal, Bool.false_eq_true, if_false] at h
    refine ⟨rfl, ?_⟩
    cases input with
    | run => exact move_of_run cfg h
    | recv r => exact move_of_recv cfg h
    | exit =>
      simp only [Option.some.injEq, Prod.mk.injEq] at h
      obtain ⟨rfl, rfl⟩ := h
      exact .exit

/-! ## The handshake -/

/-- The first SYN leaves the counter far below its limit. -/
theorem start_eq :
    start cfg =
      ({ pc := .synSent, fatal := false, tries := logDebugTries cfg.ldebug 0, sqn := cfg.isn,
         wbase := cfg.isn, shift := 0, window := [] },
        [controlPacket cfg.isn rtpSyn]) := by
  cases hdebug : cfg.ldebug <;>
    simp [start, RetryLoop.start, RetryLoop.send, RetryLoop.head, retry, logDebugTries,
      senderEstablishLoop, hdebug, sendTr]

/-- The SYN|ACK with the next number is answered by the third handshake. -/
theorem step_synAck {x : Sender} (hpc : x.pc = .synSent) (hfatal : x.fatal = false) :
    step cfg x (.recv (.ok (controlPacket (seqnumAdd x.sqn 1) (rtpAck ||| rtpSyn)))) =
      some ({ x with pc := .ackSent, sqn := seqnumAdd x.sqn 1 },
        [controlPacket (seqnumAdd x.sqn 1) rtpAck]) := by
  simp [step, recv, hpc, hfatal, RetryLoop.recv, senderEstablishLoop, retry]

theorem step_confirm_timeout {x : Sender} (hpc : x.pc = .ackSent) (hfatal : x.fatal = false) :
    step cfg x (.recv .timeout) = some ({ x with pc := .established }, []) := by
  simp [step, recv, hpc, hfatal]

theorem step_enter {x : Sender} (hpc : x.pc = .established) (hfatal : x.fatal = false) :
    step cfg x .run = some ((transferStart cfg x).1, (transferStart cfg x).2) := by
  simp [step, run, hpc, hfatal]

theorem step_transfer {x : Sender} (hpc : x.pc = .transfer) (hfatal : x.fatal = false) (r : Recv) :
    step cfg x (.recv r) = some ((transferRecv cfg x r).1, (transferRecv cfg x r).2) := by
  simp [step, recv, hpc, hfatal]

end Sender

end NetLabs.Rtp
