import NetLabs.Ftp.CommandLine

/-!
# The loop of the client

One turn of the loop in `main` of `ftp_client.cpp`: a line from `fgets`, the removal of its
newline, `parseline` and the function that is called.

* `chop` writes in front of the buffer when the string is empty.
* `CmdFunc.reads` says when a function looks at its argument, which is no string when the
  line has no blank.
* `CmdFunc.Lacks` says which lines have no argument for a function: there is no text in its
  place, or there are only blanks.
* `safeLine_iff`: the lines and states for which no invalid string is touched and a
  malformed line is reported.
-/

namespace NetLabs.Ftp

open Lib

/-! ## One turn -/

/-- `fgets(.., n + 1, stdin)`: the line and the rest of the input.  `none` when the input
ends first, where `main` exits. -/
def fgets : Nat → List UInt8 → Option (List UInt8 × List UInt8)
  | 0, input => some ([], input)
  | _ + 1, [] => none
  | n + 1, b :: input =>
    if b = 10 then some ([b], input)
    else (fgets n input).map fun (line, rest) => (b :: line, rest)

/-- Where `main` removes the newline: `strlen(cmdline) - 1`. -/
def newlineIndex (cmdline : List UInt8) : Int := (cString cmdline).length - 1

/-- `cmdline[strlen(cmdline) - 1] = '\0'`, `none` when that is not in the buffer. -/
def chop (cmdline : List UInt8) : Option (List UInt8) :=
  if newlineIndex cmdline < 0 then none else some (cmdline.set (newlineIndex cmdline).toNat 0)

/-- The function looks at its argument.  Most check first whether the client is connected. -/
def CmdFunc.reads (connected : Bool) : CmdFunc → Bool
  | doOpen => true
  | doLs | doQuit => false
  | doCd | doGet | doPut | doSha => connected

/-- The function with this argument. -/
def CmdFunc.run (calls : SocketCalls) (files : ClientOs) (args : List UInt8) (s : ClientState)
    (func : CmdFunc) : Proc Post (Int × ClientState) :=
  Attempt.run ⟨func.line args, calls, files, [], []⟩ s

/-- What a line does.  A function that reads a pointer that is no string ends the process. -/
def Parsed.run (calls : SocketCalls) (files : ClientOs) (s : ClientState) :
    Parsed → Proc Post (Int × ClientState)
  | .returns code => .done (code, s)
  | .calls func (some args) => func.run calls files args s
  | .calls func none => if func.reads s.connected then .halt else func.run calls files [] s

/-- The turn behind `fgets`, with the code that `parseline` returns.  A positive one is
reported by `main`, a negative one has been reported by the function. -/
def mainTurn (calls : SocketCalls) (files : ClientOs) (cmdline : List UInt8) (s : ClientState) :
    Proc Post (Int × ClientState) :=
  match chop cmdline with
  | none => .halt
  | some cmdline => (parseline cmdline).run calls files s

/-! ## What a line has to be -/

/-- The text of a line, without its newline. -/
def lineText (line : List UInt8) : List UInt8 := (cString line).dropLast

/-- What stands behind the first blank. -/
def behindBlank (text : List UInt8) : List UInt8 := (text.dropWhile (· ≠ 32)).tail

/-- The arguments of a function in a line: for `open` the address up to the second blank
and the port behind it, for the functions with a path all that follows the first blank. -/
def CmdFunc.arguments (text : List UInt8) : CmdFunc → List (List UInt8)
  | doOpen => [(behindBlank text).takeWhile (· ≠ 32), behindBlank (behindBlank text)]
  | doLs | doQuit => []
  | doCd | doGet | doPut | doSha => [behindBlank text]

/-- An argument is missing: nothing but blanks stands in its place. -/
def CmdFunc.Lacks (text : List UInt8) (func : CmdFunc) : Prop :=
  ∃ arg ∈ func.arguments text, ∀ b ∈ arg, b = 32

/-- The first word is no command, or an argument is missing. -/
def Malformed (text : List UInt8) : Prop :=
  (∀ name ∈ cmdnames, ¬ SameWord (firstWord text) name) ∨
    ∃ cmd ∈ cmdnames.zip cmdfuncs, SameWord (firstWord text) cmd.1 ∧ cmd.2.Lacks text

/-- The pointer `arg` points into the string in `mem`. -/
def PointsInto (mem arg : List UInt8) : Prop :=
  ∃ front, mem = front ++ arg ∧ front.length ≤ (cString mem).length

/-- The error is reported, and the session is as it was. -/
def Reported (s : ClientState) (r : Int × ClientState) : Prop :=
  r.1 ≠ 0 ∧ r.2.connected = s.connected ∧ r.2.sock = s.sock

/-- The line, with its terminator and what the buffer has behind it, makes the client touch
no invalid string, and when it is malformed it is reported and changes nothing. -/
structure SafeLine (line stale : List UInt8) (s : ClientState) : Prop where
  stored : line.length < maxline
  chopped : 0 ≤ newlineIndex (line ++ 0 :: stale) ∧ newlineIndex (line ++ 0 :: stale) < line.length
  argument : ∀ cmdline func args, chop (line ++ 0 :: stale) = some cmdline →
    parseline cmdline = .calls func args → func.reads s.connected = true →
      ∃ arg, args = some arg ∧ PointsInto cmdline arg
  separator : ∀ cmdline arg, chop (line ++ 0 :: stale) = some cmdline →
    parseline cmdline = .calls .doOpen (some arg) → strstr arg (literal " ") ≠ none
  reported : Malformed (lineText line) → ∀ calls files,
    (mainTurn calls files (line ++ 0 :: stale) s).Ends (Reported s)

/-- The function does nothing but report that the client is offline. -/
def CmdFunc.refused (connected : Bool) : CmdFunc → Bool
  | doOpen | doQuit => false
  | doLs | doCd | doGet | doPut | doSha => !connected

/-- The line does not start with the end of a string.  When its first word starts with the
name of a command, the arguments that the function reads are there, and the word is that
name or the function is refused. -/
structure WellShaped (line : List UInt8) (s : ClientState) : Prop where
  start : line.head? ≠ some 0
  shape : ∀ cmd ∈ cmdnames.zip cmdfuncs, StartsWith (firstWord (lineText line)) cmd.1 →
    (cmd.2.reads s.connected = true → ¬ cmd.2.Lacks (lineText line)) ∧
      (SameWord (firstWord (lineText line)) cmd.1 ∨ cmd.2.refused s.connected = true)

/-! ## Strings in the buffer -/

/-- A terminator inside the string cuts it off. -/
theorem cString_set {mem : List UInt8} {n : Nat} (hn : n < (cString mem).length) :
    cString (mem.set n 0) = (cString mem).take n := by
  induction mem generalizing n with
  | nil => simp [cString] at hn
  | cons b mem ih =>
    by_cases hb : b = 0
    · subst hb
      simp [cString] at hn
    · rw [cString_cons hb, List.length_cons] at hn
      rw [cString_cons hb]
      cases n with
      | zero => rfl
      | succ n => rw [List.set_cons_succ, List.take_succ_cons, ← ih (by omega), cString_cons hb]

/-- The text behind the first blank of a string is in the string. -/
theorem cString_split {mem : List UInt8} (h : 32 ∈ cString mem) :
    ∃ word, mem = word ++ 32 :: (mem.dropWhile (· ≠ 32)).tail ∧ 32 ∉ word ∧
      cString mem = word ++ 32 :: cString (mem.dropWhile (· ≠ 32)).tail := by
  induction mem with
  | nil => simp [cString] at h
  | cons b mem ih =>
    by_cases hb : b = 0
    · subst hb
      simp [cString] at h
    rw [cString_cons hb] at h ⊢
    by_cases hblank : b = 32
    · subst hblank
      exact ⟨[], by simp, by simp, by simp⟩
    · have hrest : 32 ∈ cString mem := by
        rcases List.mem_cons.mp h with heq | hrest
        · exact absurd heq.symm hblank
        · exact hrest
      obtain ⟨word, hmem, hword, htext⟩ := ih hrest
      have hdrop : (b :: mem).dropWhile (· ≠ 32) = mem.dropWhile (· ≠ 32) :=
        List.dropWhile_cons_of_pos (by simpa using hblank)
      rw [hdrop]
      refine ⟨b :: word, congrArg (b :: ·) hmem, ?_, congrArg (b :: ·) htext⟩
      rw [List.mem_cons, not_or]
      exact ⟨fun heq => hblank heq.symm, hword⟩

/-! ## The line that is parsed -/

section Line

variable {line stale : List UInt8}

theorem fgets_length_le {n : Nat} {input rest : List UInt8}
    (h : fgets n input = some (line, rest)) : line.length ≤ n := by
  induction n generalizing input line with
  | zero =>
    cases h
    exact Nat.le_refl _
  | succ n ih =>
    cases input with
    | nil => cases h
    | cons b input =>
      rw [fgets] at h
      by_cases hb : b = 10
      · rw [if_pos hb] at h
        cases h
        exact Nat.succ_le_succ (Nat.zero_le _)
      · rw [if_neg hb, Option.map_eq_some_iff] at h
        obtain ⟨⟨tail, _⟩, htail, heq⟩ := h
        cases heq
        exact Nat.succ_le_succ (ih htail)

theorem fgets_ne_nil {n : Nat} {input rest : List UInt8} (hn : 0 < n)
    (h : fgets n input = some (line, rest)) : line ≠ [] := by
  cases n with
  | zero => exact absurd hn (Nat.lt_irrefl 0)
  | succ n =>
    cases input with
    | nil => cases h
    | cons b input =>
      rw [fgets] at h
      by_cases hb : b = 10
      · rw [if_pos hb] at h
        cases h
        exact List.cons_ne_nil _ _
      · rw [if_neg hb, Option.map_eq_some_iff] at h
        obtain ⟨⟨tail, _⟩, _, heq⟩ := h
        cases heq
        exact List.cons_ne_nil _ _

/-- The string is empty when the line starts with its end. -/
theorem cString_ne_nil_iff (hline : line ≠ []) : cString line ≠ [] ↔ line.head? ≠ some 0 := by
  cases line with
  | nil => exact absurd rfl hline
  | cons b line =>
    by_cases hb : b = 0
    · subst hb
      simp [cString]
    · simp [cString_cons hb, hb]

theorem newlineIndex_eq (line stale : List UInt8) :
    newlineIndex (line ++ 0 :: stale) = (cString line).length - 1 := by
  rw [newlineIndex, cString_append_terminated]

/-- What is left of a line that does not start with its end. -/
theorem chop_eq_some (h : cString line ≠ []) (stale : List UInt8) : ∃ cmdline,
    chop (line ++ 0 :: stale) = some cmdline ∧ cString cmdline = lineText line := by
  have hpos : 0 < (cString line).length := List.length_pos_iff.mpr h
  have hindex : ¬ newlineIndex (line ++ 0 :: stale) < 0 := by
    rw [newlineIndex_eq]
    omega
  refine ⟨_, if_neg hindex, ?_⟩
  have hnat : (newlineIndex (line ++ 0 :: stale)).toNat = (cString line).length - 1 := by
    rw [newlineIndex_eq]
    omega
  rw [hnat, cString_set, cString_append_terminated, lineText, List.dropLast_eq_take]
  rw [cString_append_terminated]
  omega

end Line

/-! ## What a function does with its argument -/

section Functions

variable {func : CmdFunc} {calls : SocketCalls} {files : ClientOs} {args : List UInt8}
  {s : ClientState}

/-- A function that does not look at its argument does the same with any other. -/
theorem run_of_not_reads (h : func.reads s.connected = false) (args' : List UInt8) :
    func.run calls files args s = func.run calls files args' s := by
  cases func with
  | doOpen => cases h
  | doLs | doQuit => rfl
  | doCd | doGet | doPut | doSha =>
    have hoffline : s.connected = false := h
    simp [CmdFunc.run, CmdFunc.line, Attempt.run, hoffline, Client.doCd, Client.doGet,
      Client.doPut, Client.doSha]

/-- A function that is refused reports an error and changes nothing. -/
theorem run_of_refused (h : func.refused s.connected = true) :
    func.run calls files args s = .done (-1, s) := by
  cases func with
  | doOpen | doQuit => cases h
  | doLs | doCd | doGet | doPut | doSha =>
    have hoffline : s.connected = false := by simpa [CmdFunc.refused] using h
    simp [CmdFunc.run, CmdFunc.line, Attempt.run, hoffline, Client.doLs, Client.doCd,
      Client.doGet, Client.doPut, Client.doSha, Returned.failed]

/-- Only offline a function that needs an argument does not look at it. -/
theorem refused_of_not_reads (h : func.reads s.connected = false) {text : List UInt8}
    (hlacks : func.Lacks text) : func.refused s.connected = true := by
  cases func with
  | doOpen => cases h
  | doLs | doQuit =>
    have ⟨arg, harg, _⟩ := hlacks
    exact absurd harg List.not_mem_nil
  | doCd | doGet | doPut | doSha =>
    have hoffline : s.connected = false := h
    simp [CmdFunc.refused, hoffline]

theorem not_reads_of_refused (h : func.refused s.connected = true) :
    func.reads s.connected = false := by
  cases func with
  | doOpen | doQuit => cases h
  | doLs => rfl
  | doCd | doGet | doPut | doSha => simpa [CmdFunc.refused, CmdFunc.reads] using h

/-- Calls that give the client another socket than it has, and no connection. -/
def otherSocket (s : ClientState) : SocketCalls := ⟨s.sock + 1, -1, -1, 0, fun _ => by decide⟩

/-- Files that can be read and written. -/
def someFiles : ClientOs := ⟨fun _ => some ⟨0, []⟩, fun _ => some ⟨0⟩, fun _ => 0⟩

/-- A function that returns 0 reports nothing. -/
theorem not_reported_of_success {prog : Proc Post (Int × ClientState)} {s' : ClientState}
    (sends : List Bool) (recvs : List (Option Post)) (hplay : prog.play sends recvs = some (0, s')) :
    ¬ prog.Ends (Reported s) := by
  intro hends
  have hresult : Reported s (0, s') := hends.returns.play hplay
  exact hresult.1 rfl

/-- Online every function but `open` and `quit` goes on. -/
theorem connected_of_not_refused (h : func.refused s.connected = false) (hopen : func ≠ .doOpen)
    (hquit : func ≠ .doQuit) : s.connected = true := by
  cases func with
  | doOpen => exact absurd rfl hopen
  | doQuit => exact absurd rfl hquit
  | doLs | doCd | doGet | doPut | doSha => simpa [CmdFunc.refused] using h

/-- Every other function may succeed, or change the socket. -/
theorem not_reported_of_not_refused (h : func.refused s.connected = false)
    (hopen : func = .doOpen → 32 ∈ cString args) :
    ∃ calls files, ¬ (func.run calls files args s).Ends (Reported s) := by
  refine ⟨otherSocket s, someFiles, ?_⟩
  cases func with
  | doOpen =>
    intro hends
    have hblank := hopen rfl
    have hplay : (CmdFunc.doOpen.run (otherSocket s) someFiles args s).play [] [] =
        some (-1, (s.openSocket (s.sock + 1)).closeSocket) := by
      simp [CmdFunc.run, CmdFunc.line, Attempt.run, Client.doOpen, hblank, otherSocket]
    have hresult : Reported s _ := hends.returns.play hplay
    have hsock : s.sock + 1 = s.sock := hresult.2.2
    omega
  | doQuit =>
    cases hconnected : s.connected with
    | false =>
      have hplay : (CmdFunc.doQuit.run (otherSocket s) someFiles args s).play [] [] =
          some (0, { s with running := false }) := by
        simp [CmdFunc.run, CmdFunc.line, Attempt.run, Client.doQuit, hconnected]
      exact not_reported_of_success _ _ hplay
    | true =>
      have hplay : (CmdFunc.doQuit.run (otherSocket s) someFiles args s).play [true]
          [some ⟨quitReply, 0, []⟩] =
            some (0, { s.closeSocket with connected := false, prompt := defaultPrompt }) := by
        simp [CmdFunc.run, CmdFunc.line, Attempt.run, Client.doQuit, hconnected, otherSocket]
      exact not_reported_of_success _ _ hplay
  | doLs =>
    have honline : s.connected = true := connected_of_not_refused h (by decide) (by decide)
    have hplay : (CmdFunc.doLs.run (otherSocket s) someFiles args s).play [true]
        [some ⟨listReply, 0, []⟩] = some (0, s) := by
      simp [CmdFunc.run, CmdFunc.line, Attempt.run, Client.doLs, honline]
    exact not_reported_of_success _ _ hplay
  | doCd =>
    have honline : s.connected = true := connected_of_not_refused h (by decide) (by decide)
    have hplay : (CmdFunc.doCd.run (otherSocket s) someFiles args s).play [true]
        [some ⟨cdReply, 1, []⟩] = some (0, s) := by
      simp [CmdFunc.run, CmdFunc.line, Attempt.run, Client.doCd, honline]
    exact not_reported_of_success _ _ hplay
  | doGet =>
    have honline : s.connected = true := connected_of_not_refused h (by decide) (by decide)
    have hplay : (CmdFunc.doGet.run (otherSocket s) someFiles args s).play [true]
        [some ⟨getReply, 1, []⟩, some ⟨fileData, 0, []⟩] = some (0, s) := by
      simp [CmdFunc.run, CmdFunc.line, Attempt.run, Client.doGet, honline, someFiles, writeFile]
    exact not_reported_of_success _ _ hplay
  | doPut =>
    have honline : s.connected = true := connected_of_not_refused h (by decide) (by decide)
    have hsize : ¬ (readFile (someFiles.openRead (cString args)) someFiles.stale maxbuf).1 < 0 :=
      (readFile_nonneg_iff someFiles.stale maxbuf_nonneg).mpr ⟨⟨0, []⟩, rfl, by decide⟩
    have hplay : (CmdFunc.doPut.run (otherSocket s) someFiles args s).play [true, true]
        [some ⟨putReply, 0, []⟩] = some (0, s) := by
      simp [CmdFunc.run, CmdFunc.line, Attempt.run, Client.doPut, honline, hsize]
    exact not_reported_of_success _ _ hplay
  | doSha =>
    have honline : s.connected = true := connected_of_not_refused h (by decide) (by decide)
    have hplay : (CmdFunc.doSha.run (otherSocket s) someFiles args s).play [true]
        [some ⟨shaReply, 1, []⟩, some ⟨fileData, 0, []⟩] = some (0, s) := by
      simp [CmdFunc.run, CmdFunc.line, Attempt.run, Client.doSha, honline]
    exact not_reported_of_success _ _ hplay

end Functions

/-! ## The line and its arguments -/

section Parsing

variable {cmdline line stale : List UInt8} {cmd : List UInt8 × CmdFunc} {func : CmdFunc}
  {s : ClientState}

theorem firstWord_cString (mem : List UInt8) : firstWord (cString mem) = firstWord mem := by
  rw [firstWord, firstWord, cString_eq_self (zero_not_mem_cString mem)]

theorem strstr_blank_eq (mem : List UInt8) :
    strstr mem (literal " ") =
      if 32 ∈ cString mem then some (mem.dropWhile (· ≠ 32)) else none :=
  strstr_byte (show (32 : UInt8) ≠ 0 by decide) mem

theorem strstr_blank {arg : List UInt8} : strstr arg (literal " ") ≠ none ↔ 32 ∈ cString arg := by
  rw [strstr_blank_eq]
  by_cases hblank : 32 ∈ cString arg
  · simp [hblank]
  · simp [hblank]

/-- The argument pointer is a string exactly when the line has a blank. -/
theorem args_eq {args : Option (List UInt8)} (h : parseline cmdline = .calls func args) :
    args = if 32 ∈ cString cmdline then some (cmdline.dropWhile (· ≠ 32)).tail else none := by
  rw [args_of_calls h, strstr_blank_eq]
  by_cases hblank : 32 ∈ cString cmdline
  · rw [if_pos hblank, if_pos hblank, Option.map_some]
  · rw [if_neg hblank, if_neg hblank, Option.map_none]

/-- It points into the line then, and the string there is what stands behind the blank. -/
theorem argument_of_blank (h : 32 ∈ cString cmdline) :
    PointsInto cmdline (cmdline.dropWhile (· ≠ 32)).tail ∧
      cString (cmdline.dropWhile (· ≠ 32)).tail = behindBlank (cString cmdline) := by
  have ⟨word, hmem, hword, htext⟩ := cString_split h
  refine ⟨⟨word ++ [32], ?_, ?_⟩, ?_⟩
  · rw [List.append_assoc, List.singleton_append]
    exact hmem
  · rw [htext]
    simp
  · have hskip : ∀ b ∈ word, (decide (b ≠ 32)) = true := by
      intro b hb
      simpa using fun heq : b = 32 => hword (heq ▸ hb)
    rw [htext, behindBlank, List.dropWhile_append_of_pos hskip]
    simp

/-- Behind a blank that is not there stands nothing. -/
theorem behindBlank_of_not_mem {text : List UInt8} (h : 32 ∉ text) : behindBlank text = [] := by
  have hall : ∀ b ∈ text, (decide (b ≠ 32)) = true := by
    intro b hb
    simpa using fun heq : b = 32 => h (heq ▸ hb)
  rw [behindBlank, List.dropWhile_eq_nil_iff.mpr hall, List.tail_nil]

theorem lacks_of_nil {text : List UInt8} (h : [] ∈ func.arguments text) : func.Lacks text :=
  ⟨[], h, fun _ hb => absurd hb List.not_mem_nil⟩

/-- A line with an argument has a blank in front of it. -/
theorem blank_of_not_lacks (hreads : func.reads s.connected = true) {text : List UInt8}
    (h : ¬ func.Lacks text) :
    32 ∈ text ∧ (func = .doOpen → 32 ∈ behindBlank text) := by
  have hblank : 32 ∈ text := by
    by_contra hnone
    have hnil := behindBlank_of_not_mem hnone
    refine h (lacks_of_nil ?_)
    cases func with
    | doOpen => simp [CmdFunc.arguments, hnil]
    | doLs | doQuit => cases hreads
    | doCd | doGet | doPut | doSha => exact List.mem_singleton.mpr hnil.symm
  refine ⟨hblank, ?_⟩
  rintro rfl
  by_contra hnone
  have hnil := behindBlank_of_not_mem hnone
  refine h (lacks_of_nil ?_)
  simp [CmdFunc.arguments, hnil]

/-- The arguments that a function reads are strings when none is missing. -/
theorem exists_arg {args : Option (List UInt8)} (hcalls : parseline cmdline = .calls func args)
    (hreads : func.reads s.connected = true) (hthere : ¬ func.Lacks (cString cmdline)) :
    ∃ arg, args = some arg ∧ PointsInto cmdline arg ∧
      (func = .doOpen → strstr arg (literal " ") ≠ none) := by
  have ⟨hblank, hsecond⟩ := blank_of_not_lacks hreads hthere
  have hargs := args_eq hcalls
  rw [if_pos hblank] at hargs
  have ⟨hinside, htext⟩ := argument_of_blank hblank
  refine ⟨_, hargs, hinside, fun hopen => ?_⟩
  rw [strstr_blank, htext]
  exact hsecond hopen

/-- The function that is called has a name that the first word starts with. -/
theorem exists_cmd {args : Option (List UInt8)} (h : parseline cmdline = .calls func args) :
    ∃ cmd ∈ cmdnames.zip cmdfuncs, cmd.2 = func ∧ StartsWith (firstWord cmdline) cmd.1 := by
  have hfunc : func ∈ cmdfuncs := by cases func <;> decide
  have ⟨name, _, hcmd⟩ := exists_name func hfunc
  exact ⟨(name, func), hcmd, rfl, (parseline_calls_iff hcmd).mp ⟨args, h⟩⟩

/-- A line whose first word only starts with a name is malformed. -/
theorem malformed_of_longer_word {text : List UInt8} (hcmd : cmd ∈ cmdnames.zip cmdfuncs)
    (hstarts : StartsWith (firstWord text) cmd.1) (hother : ¬ SameWord (firstWord text) cmd.1) :
    Malformed text := by
  left
  intro name hname hsame
  have ⟨func, _, hcmd'⟩ := exists_func name hname
  have heq := startsWith_unique hcmd hcmd' hstarts hsame.startsWith
  rw [heq] at hother
  exact hother hsame

end Parsing

/-! ## Which lines are safe -/

section Safe

variable {line stale : List UInt8} {s : ClientState}

/-- A line of the right shape that is malformed is reported. -/
theorem reported_of_shape {cmdline : List UInt8} (htext : cString cmdline = lineText line)
    (hshape : WellShaped line s) (hbad : Malformed (lineText line)) (calls : SocketCalls)
    (files : ClientOs) : ((parseline cmdline).run calls files s).Ends (Reported s) := by
  have hword : firstWord cmdline = firstWord (lineText line) := by
    rw [← htext, firstWord_cString]
  by_cases hany : ∃ name ∈ cmdnames, StartsWith (firstWord cmdline) name
  · obtain ⟨name, hname, hstarts⟩ := hany
    have ⟨func, _, hcmd⟩ := exists_func name hname
    have ⟨args, hcalls⟩ := (parseline_calls_iff hcmd).mpr hstarts
    rw [hword] at hstarts
    have ⟨hreads, hsame⟩ := hshape.shape (name, func) hcmd hstarts
    -- what is malformed is a missing argument, and then the function is refused as well
    have hrefused : func.refused s.connected = true := by
      rcases hsame with hsame | hrefused
      · rcases hbad with hnone | ⟨cmd, hcmd', hsame', hlacks⟩
        · exact absurd hsame (hnone name hname)
        · have heq := startsWith_unique hcmd hcmd' hstarts hsame'.startsWith
          rw [← heq] at hlacks
          refine refused_of_not_reads ?_ hlacks
          rw [← Bool.not_eq_true]
          intro h
          exact hreads h hlacks
      · exact hrefused
    have hunread := not_reads_of_refused hrefused
    rw [hcalls]
    cases args with
    | none =>
      rw [Parsed.run, hunread, if_neg (by decide), run_of_refused hrefused]
      exact .done ⟨show (-1 : Int) ≠ 0 by decide, rfl, rfl⟩
    | some arg =>
      rw [Parsed.run, run_of_refused hrefused]
      exact .done ⟨show (-1 : Int) ≠ 0 by decide, rfl, rfl⟩
  · have hreturns : parseline cmdline = .returns 1 :=
      parseline_returns_iff.mpr fun name hname hstarts => hany ⟨name, hname, hstarts⟩
    rw [hreturns]
    exact .done ⟨show (1 : Int) ≠ 0 by decide, rfl, rfl⟩

/-- A line of the right shape is safe. -/
theorem safe_of_wellShaped (hstored : line.length < maxline) (hline : line ≠ [])
    (h : WellShaped line s) : SafeLine line stale s := by
  have hne := (cString_ne_nil_iff hline).mpr h.start
  have hpos : 0 < (cString line).length := List.length_pos_iff.mpr hne
  have hle : (cString line).length ≤ line.length := (List.takeWhile_prefix _).length_le
  have ⟨cmdline, hchop, htext⟩ := chop_eq_some hne stale
  have hword : firstWord cmdline = firstWord (lineText line) := by
    rw [← htext, firstWord_cString]
  have hargs : ∀ func args, parseline cmdline = .calls func args →
      func.reads s.connected = true → ∃ arg, args = some arg ∧ PointsInto cmdline arg ∧
        (func = .doOpen → strstr arg (literal " ") ≠ none) := by
    intro func args hcalls hreads
    obtain ⟨cmd, hcmd, rfl, hstarts⟩ := exists_cmd hcalls
    rw [hword] at hstarts
    have hthere := (h.shape cmd hcmd hstarts).1 hreads
    rw [← htext] at hthere
    exact exists_arg hcalls hreads hthere
  refine ⟨hstored, ?_, ?_, ?_, ?_⟩
  · rw [newlineIndex_eq]
    omega
  · intro cmdline' func args hchop' hcalls hreads
    rw [hchop] at hchop'
    cases hchop'
    have ⟨arg, harg, hinside, _⟩ := hargs func args hcalls hreads
    exact ⟨arg, harg, hinside⟩
  · intro cmdline' arg hchop' hcalls
    rw [hchop] at hchop'
    cases hchop'
    have ⟨arg', harg, _, hblank⟩ := hargs .doOpen (some arg) hcalls rfl
    cases harg
    exact hblank rfl
  · intro hbad calls files
    rw [mainTurn, hchop]
    exact reported_of_shape htext h hbad calls files

/-- The function that a safe line calls is refused when the line is malformed. -/
theorem refused_of_malformed (h : SafeLine line stale s) {cmdline : List UInt8}
    (hchop : chop (line ++ 0 :: stale) = some cmdline) {func : CmdFunc}
    {args : Option (List UInt8)} (hcalls : parseline cmdline = .calls func args)
    (hbad : Malformed (lineText line)) : func.refused s.connected = true := by
  by_contra hnot
  rw [Bool.not_eq_true] at hnot
  cases args with
  | none =>
    have hunread : func.reads s.connected = false := by
      rw [← Bool.not_eq_true]
      intro hreads
      have ⟨arg, harg, _⟩ := h.argument cmdline func none hchop hcalls hreads
      cases harg
    have hnotOpen : func = .doOpen → 32 ∈ cString [] := by
      intro hopen
      rw [hopen] at hunread
      cases hunread
    have ⟨calls, files, hunreported⟩ := not_reported_of_not_refused hnot hnotOpen
    have hreported := h.reported hbad calls files
    rw [mainTurn, hchop] at hreported
    simp only [hcalls, Parsed.run, hunread] at hreported
    exact hunreported hreported
  | some arg =>
    have hopen : func = .doOpen → 32 ∈ cString arg := by
      intro hopen
      rw [hopen] at hcalls
      exact strstr_blank.mp (h.separator cmdline arg hchop hcalls)
    have ⟨calls, files, hunreported⟩ := not_reported_of_not_refused hnot hopen
    have hreported := h.reported hbad calls files
    rw [mainTurn, hchop] at hreported
    simp only [hcalls, Parsed.run] at hreported
    exact hunreported hreported

/-- A safe line has the right shape. -/
theorem wellShaped_of_safe (hline : line ≠ []) (h : SafeLine line stale s) :
    WellShaped line s := by
  have hne : cString line ≠ [] := by
    intro hnil
    have hindex := h.chopped.1
    rw [newlineIndex_eq, hnil] at hindex
    exact absurd hindex (by decide)
  have ⟨cmdline, hchop, htext⟩ := chop_eq_some hne stale
  refine ⟨(cString_ne_nil_iff hline).mp hne, ?_⟩
  intro ⟨name, func⟩ hcmd hstarts
  have hstarts' : StartsWith (firstWord cmdline) name := by
    rw [← firstWord_cString, htext]
    exact hstarts
  have ⟨args, hcalls⟩ := (parseline_calls_iff hcmd).mpr hstarts'
  by_cases hsame : SameWord (firstWord (lineText line)) name
  · refine ⟨fun hreads hlacks => ?_, .inl hsame⟩
    have hrefused := refused_of_malformed h hchop hcalls (.inr ⟨_, hcmd, hsame, hlacks⟩)
    rw [not_reads_of_refused hrefused] at hreads
    cases hreads
  · have hrefused := refused_of_malformed h hchop hcalls
      (malformed_of_longer_word hcmd hstarts hsame)
    refine ⟨fun hreads => ?_, .inr hrefused⟩
    rw [not_reads_of_refused hrefused] at hreads
    cases hreads

end Safe

/-- **A line is safe exactly when it has the right shape**: it does not start with the end
of a string, no argument that is read is missing, and a word that only starts with the
name of a command does not get to that command's function. -/
theorem safeLine_iff {input line rest : List UInt8}
    (hline : fgets (maxline - 1) input = some (line, rest)) (stale : List UInt8)
    (s : ClientState) : SafeLine line stale s ↔ WellShaped line s := by
  have hpos : 0 < maxline - 1 := by decide
  have hne := fgets_ne_nil hpos hline
  have hle := fgets_length_le hline
  exact ⟨wellShaped_of_safe hne, safe_of_wellShaped (by omega) hne⟩

/-- `cd a` of a connected client. -/
theorem safeLine_cd :
    SafeLine (literal "cd a\n") [] { ClientState.initial with connected := true } := by
  have hline : fgets (maxline - 1) (literal "cd a\n") = some (literal "cd a\n", []) := by decide
  refine (safeLine_iff hline [] _).mpr ⟨by decide, ?_⟩
  unfold StartsWith SameWord CmdFunc.Lacks
  decide

/-- A line with the name of a function that reads an argument, and no argument. -/
theorem unsafe_of_lacks {line name : List UInt8} {func : CmdFunc} {s : ClientState}
    (hline : line ≠ []) (hcmd : (name, func) ∈ cmdnames.zip cmdfuncs)
    (hstarts : StartsWith (firstWord (lineText line)) name)
    (hreads : func.reads s.connected = true) (hlacks : func.Lacks (lineText line)) :
    ¬ SafeLine line [] s := fun h =>
  ((wellShaped_of_safe hline h).shape (name, func) hcmd hstarts).1 hreads hlacks

/-- `open` without an argument, with an empty address and with an empty port, `cd` without
an argument, and a line that starts with a NUL. -/
theorem bare_lines_unsafe :
    (∀ line ∈ [literal "open\n", literal "open  80\n", literal "open 127.0.0.1 \n"],
      fgets (maxline - 1) line = some (line, []) ∧ ¬ SafeLine line [] .initial) ∧
    (fgets (maxline - 1) (literal "cd\n") = some (literal "cd\n", []) ∧
      ¬ SafeLine (literal "cd\n") [] { ClientState.initial with connected := true }) ∧
    (fgets (maxline - 1) [0, 10] = some ([0, 10], []) ∧ ¬ SafeLine [0, 10] [] .initial) := by
  have hopen : ∀ line ∈ [literal "open\n", literal "open  80\n", literal "open 127.0.0.1 \n"],
      line ≠ [] ∧ StartsWith (firstWord (lineText line)) (literal "open") ∧
        CmdFunc.doOpen.Lacks (lineText line) := by
    unfold StartsWith CmdFunc.Lacks
    decide +kernel
  have hcd : StartsWith (firstWord (lineText (literal "cd\n"))) (literal "cd") ∧
      CmdFunc.doCd.Lacks (lineText (literal "cd\n")) := by
    unfold StartsWith CmdFunc.Lacks
    decide +kernel
  refine ⟨fun line hmem => ⟨?_, ?_⟩, ⟨by decide, ?_⟩, by decide, fun h => ?_⟩
  · revert line
    decide
  · have ⟨hline, hstarts, hlacks⟩ := hopen line hmem
    exact unsafe_of_lacks hline (by decide) hstarts rfl hlacks
  · exact unsafe_of_lacks (by decide) (by decide) hcd.1 rfl hcd.2
  · exact (wellShaped_of_safe (by decide) h).start rfl

end NetLabs.Ftp
