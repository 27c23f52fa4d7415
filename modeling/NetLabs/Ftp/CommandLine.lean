import NetLabs.Ftp.ClientSession
import NetLabs.Lib.CString

/-!
# Command lines

`parseline` of `ftp_client.cpp`: which function a line calls, and with which
argument.

* `parseline` compares the line with the names in turn, as far as each name goes.
* `ObeysGrammar` says what the names are for: the first word of the line is one of
  them.
* `obeysGrammar_iff`: the lines that are treated so.
-/

namespace NetLabs.Ftp

open Lib

/-! ## The table -/

def cmdnames : List (List UInt8) :=
  ["open", "ls", "cd", "get", "put", "sha256", "quit"].map literal

/-- The functions that `cmdfuncs` points to. -/
inductive CmdFunc where
  | doOpen
  | doLs
  | doCd
  | doGet
  | doPut
  | doSha
  | doQuit
  deriving DecidableEq, Repr

def cmdfuncs : List CmdFunc :=
  [.doOpen, .doLs, .doCd, .doGet, .doPut, .doSha, .doQuit]

/-- What the client does for a line that calls the function with an argument. -/
def CmdFunc.line (args : List UInt8) : CmdFunc → Line
  | doOpen => .doOpen args
  | doLs => .other .ls
  | doCd => .other (.cd args)
  | doGet => .other (.get args)
  | doPut => .other (.put args)
  | doSha => .other (.sha args)
  | doQuit => .doQuit

/-- What `parseline` does. -/
inductive Parsed where
  /-- It calls the function.  Without an argument the pointer is no string. -/
  | calls (func : CmdFunc) (args : Option (List UInt8))
  /-- It calls no function and returns this. -/
  | returns (code : Int)
  deriving DecidableEq, Repr

def parseline (cmdline : List UInt8) : Parsed :=
  let p := strstr cmdline (literal " ")
  match (cmdnames.zip cmdfuncs).find? fun cmd => strncasecmp cmdline cmd.1 cmd.1.length = 0 with
  | some (_, func) => .calls func (p.map List.tail)
  | none => .returns 1

/-! ## Words -/

/-- The line up to its first blank. -/
def firstWord (cmdline : List UInt8) : List UInt8 := (cString cmdline).takeWhile (· ≠ 32)

/-- The words are equal but for the case of their letters. -/
def SameWord (word name : List UInt8) : Prop := word.map tolower = name.map tolower

/-- The word starts with the name, whatever the case of the letters. -/
def StartsWith (word name : List UInt8) : Prop := name.map tolower <+: word.map tolower

/-- The function of a command is called exactly for the lines whose first word is its
name, and for all other lines the code is returned that says that the command is not
supported. -/
structure ObeysGrammar (cmdline : List UInt8) : Prop where
  called : ∀ (k : Nat) (name : List UInt8) (func : CmdFunc), cmdnames[k]? = some name →
    cmdfuncs[k]? = some func →
    ((∃ args, parseline cmdline = .calls func args) ↔ SameWord (firstWord cmdline) name)
  unsupported : (∀ name ∈ cmdnames, ¬ SameWord (firstWord cmdline) name) →
    parseline cmdline = .returns 1

variable {cmdline word name : List UInt8} {func : CmdFunc}

theorem SameWord.startsWith (h : SameWord word name) : StartsWith word name := by
  have heq : word.map tolower = name.map tolower := h
  show name.map tolower <+: word.map tolower
  exact heq ▸ List.prefix_refl _

/-- A name is written in lower case, without a blank or the end of a string in it. -/
theorem cmdnames_plain : ∀ name ∈ cmdnames,
    name.map tolower = name ∧ ∀ b ∈ name, b ≠ 0 ∧ b ≠ 32 := by
  decide +kernel

/-- Comparing the line is comparing its first word. -/
theorem strncasecmp_iff_startsWith (hname : name ∈ cmdnames) :
    strncasecmp cmdline name name.length = 0 ↔ StartsWith (firstWord cmdline) name := by
  have ⟨hlower, hplain⟩ := cmdnames_plain name hname
  have hzero : 0 ∉ name := fun hmem => (hplain 0 hmem).1 rfl
  rw [strncasecmp_eq_zero_iff hzero, StartsWith, hlower, firstWord, cString,
    ← takeWhile_map_tolower (by decide) (by decide),
    ← takeWhile_map_tolower (by decide) (by decide),
    prefix_takeWhile_iff fun b hb => by simpa using (hplain b hb).2,
    prefix_takeWhile_iff fun b hb => by simpa using (hplain b hb).1]

/-- No name starts with another one. -/
theorem cmdnames_prefixFree : ∀ cmd ∈ cmdnames.zip cmdfuncs, ∀ cmd' ∈ cmdnames.zip cmdfuncs,
    cmd.1.map tolower <+: cmd'.1.map tolower → cmd = cmd' := by
  decide

theorem cmdfuncs_distinct : ∀ cmd ∈ cmdnames.zip cmdfuncs, ∀ cmd' ∈ cmdnames.zip cmdfuncs,
    cmd.2 = cmd'.2 → cmd = cmd' := by
  decide

/-- A word starts with one name at most. -/
theorem startsWith_unique {cmd cmd' : List UInt8 × CmdFunc} (hcmd : cmd ∈ cmdnames.zip cmdfuncs)
    (hcmd' : cmd' ∈ cmdnames.zip cmdfuncs) (h : StartsWith word cmd.1)
    (h' : StartsWith word cmd'.1) : cmd = cmd' := by
  rcases List.prefix_or_prefix_of_prefix h h' with hprefix | hprefix
  · exact cmdnames_prefixFree cmd hcmd cmd' hcmd' hprefix
  · exact (cmdnames_prefixFree cmd' hcmd' cmd hcmd hprefix).symm

/-! ## What the loop does -/

theorem mem_of_mem_zip (hcmd : (name, func) ∈ cmdnames.zip cmdfuncs) : name ∈ cmdnames :=
  (List.of_mem_zip hcmd).1

/-- The function of the first name that matches is called, and that is the only one. -/
theorem parseline_calls_iff (hcmd : (name, func) ∈ cmdnames.zip cmdfuncs) :
    (∃ args, parseline cmdline = .calls func args) ↔ StartsWith (firstWord cmdline) name := by
  rw [parseline]
  cases hfind : (cmdnames.zip cmdfuncs).find? fun cmd =>
    decide (strncasecmp cmdline cmd.1 cmd.1.length = 0) with
  | none =>
    have hnone := List.find?_eq_none.mp hfind (name, func) hcmd
    rw [decide_eq_true_iff, strncasecmp_iff_startsWith (mem_of_mem_zip hcmd)] at hnone
    exact iff_of_false (fun ⟨_, hcalls⟩ => nomatch hcalls) hnone
  | some cmd =>
    have hmem := List.mem_of_find?_eq_some hfind
    have hstarts := List.find?_some hfind
    rw [decide_eq_true_iff, strncasecmp_iff_startsWith (mem_of_mem_zip hmem)] at hstarts
    constructor
    · intro ⟨_, hcalls⟩
      have hfunc : cmd.2 = func := (Parsed.calls.inj hcalls).1
      have heq := cmdfuncs_distinct cmd hmem (name, func) hcmd hfunc
      rw [heq] at hstarts
      exact hstarts
    · intro hname
      have heq := startsWith_unique hmem hcmd hstarts hname
      rw [heq]
      exact ⟨_, rfl⟩

/-- Every name has a function, and every function a name. -/
theorem exists_func : ∀ name ∈ cmdnames, ∃ func ∈ cmdfuncs,
    (name, func) ∈ cmdnames.zip cmdfuncs := by
  decide

theorem exists_name : ∀ func ∈ cmdfuncs, ∃ name ∈ cmdnames,
    (name, func) ∈ cmdnames.zip cmdfuncs := by
  decide

theorem parseline_returns_iff : parseline cmdline = .returns 1 ↔
    ∀ name ∈ cmdnames, ¬ StartsWith (firstWord cmdline) name := by
  constructor
  · intro hreturns name hname hstarts
    have ⟨func, _, hcmd⟩ := exists_func name hname
    have ⟨args, hcalls⟩ := (parseline_calls_iff hcmd).mpr hstarts
    rw [hreturns] at hcalls
    cases hcalls
  · intro hnone
    have hfind : (cmdnames.zip cmdfuncs).find? (fun cmd =>
        decide (strncasecmp cmdline cmd.1 cmd.1.length = 0)) = none := by
      refine List.find?_eq_none.mpr fun cmd hcmd => ?_
      have hname := mem_of_mem_zip hcmd
      rw [decide_eq_true_iff, strncasecmp_iff_startsWith hname]
      exact hnone cmd.1 hname
    rw [parseline, hfind]

/-- **Only commands are run** exactly for the lines whose first word is a command name
if it starts with one. -/
theorem obeysGrammar_iff (cmdline : List UInt8) : ObeysGrammar cmdline ↔
    ∀ name ∈ cmdnames, StartsWith (firstWord cmdline) name →
      SameWord (firstWord cmdline) name := by
  constructor
  · intro hobeys name hname hstarts
    have ⟨func, _, hcmd⟩ := exists_func name hname
    have ⟨k, hk⟩ := List.mem_iff_getElem?.mp hcmd
    have ⟨hkname, hkfunc⟩ := List.getElem?_zip_eq_some.mp hk
    exact (hobeys.called k name func hkname hkfunc).mp ((parseline_calls_iff hcmd).mpr hstarts)
  · intro hwords
    refine ⟨?_, ?_⟩
    · intro k name func hkname hkfunc
      have hcmd : (name, func) ∈ cmdnames.zip cmdfuncs :=
        List.mem_of_getElem? (List.getElem?_zip_eq_some.mpr ⟨hkname, hkfunc⟩)
      rw [parseline_calls_iff hcmd]
      exact ⟨hwords name (mem_of_mem_zip hcmd), SameWord.startsWith⟩
    · intro hnone
      rw [parseline_returns_iff]
      intro name hname hstarts
      exact hnone name hname (hwords name hname hstarts)

/-- `lsx` is no command, and it lists the directory. -/
theorem lsx_lists : parseline (literal "lsx") = .calls .doLs none ∧
    ¬ ObeysGrammar (literal "lsx") := by
  have hcalls : parseline (literal "lsx") = .calls .doLs none := by decide
  refine ⟨hcalls, fun hobeys => ?_⟩
  have hsame := (hobeys.called 1 (literal "ls") .doLs rfl rfl).mp ⟨none, hcalls⟩
  have hother : ¬ SameWord (firstWord (literal "lsx")) (literal "ls") := by
    unfold SameWord
    decide
  exact hother hsame

/-! ## The argument -/

theorem firstWord_append (hname : name ∈ cmdnames) (args : List UInt8) :
    firstWord (name ++ 32 :: args) = name := by
  have hplain := (cmdnames_plain name hname).2
  rw [firstWord, cString, List.takeWhile_append_of_pos fun b hb => by simpa using (hplain b hb).1,
    List.takeWhile_append_of_pos fun b hb => by simpa using (hplain b hb).2]
  simp

/-- The argument is looked for in the line, whatever the name. -/
theorem args_of_calls {args : Option (List UInt8)} (h : parseline cmdline = .calls func args) :
    args = (strstr cmdline (literal " ")).map List.tail := by
  rw [parseline] at h
  cases hfind : (cmdnames.zip cmdfuncs).find? fun cmd =>
    decide (strncasecmp cmdline cmd.1 cmd.1.length = 0) with
  | none =>
    rw [hfind] at h
    cases h
  | some cmd =>
    rw [hfind] at h
    exact (Parsed.calls.inj h).2.symm

/-- What stands behind the blank is the argument. -/
theorem parseline_append (hcmd : (name, func) ∈ cmdnames.zip cmdfuncs) (args : List UInt8) :
    parseline (name ++ 32 :: args) = .calls func (some args) := by
  have hname := mem_of_mem_zip hcmd
  have hplain := (cmdnames_plain name hname).2
  have hblank : strstr (name ++ 32 :: args) [32] = some (32 :: args) := by
    have hmem : 32 ∈ (name ++ 32 :: args).takeWhile (· ≠ 0) := by
      rw [List.takeWhile_append_of_pos fun b hb => by simpa using (hplain b hb).1]
      exact List.mem_append_right _ (by simp)
    rw [strstr_byte (by decide), if_pos hmem,
      List.dropWhile_append_of_pos fun b hb => by simpa using (hplain b hb).2]
    simp
  have hstarts : StartsWith (firstWord (name ++ 32 :: args)) name := by
    rw [firstWord_append hname]
    exact List.prefix_refl _
  have ⟨args', hcalls⟩ := (parseline_calls_iff hcmd).mpr hstarts
  have hargs : args' = (strstr (name ++ 32 :: args) [32]).map List.tail := args_of_calls hcalls
  rw [hcalls, hargs, hblank]
  rfl

/-- Every command of a session can be typed. -/
theorem exists_cmdline (line : Line) : ∃ cmdline func args,
    parseline cmdline = .calls func (some args) ∧ func.line args = line := by
  have htyped : ∀ func ∈ cmdfuncs, ∀ args, ∃ cmdline,
      parseline cmdline = .calls func (some args) := by
    intro func hfunc args
    have ⟨name, _, hcmd⟩ := exists_name func hfunc
    exact ⟨_, parseline_append hcmd args⟩
  have ⟨func, hfunc, args, hline⟩ : ∃ func ∈ cmdfuncs, ∃ args, func.line args = line := by
    cases line with
    | doOpen args => exact ⟨.doOpen, by decide, args, rfl⟩
    | doQuit => exact ⟨.doQuit, by decide, [], rfl⟩
    | other c =>
      cases c with
      | ls => exact ⟨.doLs, by decide, [], rfl⟩
      | cd args => exact ⟨.doCd, by decide, args, rfl⟩
      | get args => exact ⟨.doGet, by decide, args, rfl⟩
      | put args => exact ⟨.doPut, by decide, args, rfl⟩
      | sha args => exact ⟨.doSha, by decide, args, rfl⟩
  have ⟨cmdline, hcalls⟩ := htyped func hfunc args
  exact ⟨cmdline, func, args, hcalls, hline⟩

end NetLabs.Ftp
