import NetLabs.Ftp.Files
import NetLabs.Lib.Session

/-!
# The FTP client's commands

`doLs` to `doSha` are the command functions of `ftp_client.cpp` as programs
over the connection.  `connected` is the global of that name, and `ClientOs`
holds what the system calls of one command return.
-/

namespace NetLabs.Ftp

open Lib

structure ClientOs where
  openRead : List UInt8 → Option InFile
  openWrite : List UInt8 → Option OutFile
  /-- What the uninitialised buffer of the function holds. -/
  stale : Nat → UInt8

/-- What a command leaves behind: its return value, the content of the file it
saved and the text it printed. -/
structure Returned where
  code : Int
  saved : Option (List UInt8)
  shown : List UInt8
  deriving DecidableEq, Repr

def Returned.failed : Returned := ⟨-1, none, []⟩

namespace Client

variable (connected : Bool) (os : ClientOs)

/-- The bytes of an argument and its terminator. -/
def argument (args : List UInt8) : List UInt8 := cString args ++ [0]

def doLs : Proc Post Returned := do
  if connected = false then return .failed
  if !(← .post ⟨listRequest, 0, []⟩) then return .failed
  let some reply ← .receive | return .failed
  if reply.type ≠ listReply then return .failed
  return ⟨0, none, cString reply.payload⟩

def doCd (args : List UInt8) : Proc Post Returned := do
  if connected = false then return .failed
  if !(← .post ⟨cdRequest, 0, argument args⟩) then return .failed
  let some reply ← .receive | return .failed
  if reply.type ≠ cdReply ∨ reply.status ≠ 1 then return .failed
  return ⟨0, none, []⟩

def doGet (args : List UInt8) : Proc Post Returned := do
  if connected = false then return .failed
  if !(← .post ⟨getRequest, 0, argument args⟩) then return .failed
  let some reply ← .receive | return .failed
  if reply.type ≠ getReply ∨ reply.status ≠ 1 then return .failed
  let some data ← .receive | return .failed
  if data.type ≠ fileData then return .failed
  let (code, saved) := writeFile (os.openWrite (cString args)) data.payload
  return ⟨code, saved, []⟩

def doPut (args : List UInt8) : Proc Post Returned := do
  if connected = false then return .failed
  if !(← .post ⟨putRequest, 0, argument args⟩) then return .failed
  let some reply ← .receive | return .failed
  if reply.type ≠ putReply then return .failed
  let (size, buf) := readFile (os.openRead (cString args)) os.stale maxbuf
  -- the server waits for the file all the same
  if size < 0 then return .failed
  if !(← .post ⟨fileData, 0, buf⟩) then return .failed
  return ⟨0, none, []⟩

def doSha (args : List UInt8) : Proc Post Returned := do
  if connected = false then return .failed
  if !(← .post ⟨shaRequest, 0, argument args⟩) then return .failed
  let some reply ← .receive | return .failed
  if reply.type ≠ shaReply ∨ reply.status ≠ 1 then return .failed
  let some data ← .receive | return .failed
  if data.type ≠ fileData then return .failed
  return ⟨0, none, cString data.payload⟩

end Client

/-- A command line that asks the server for something. -/
inductive Command where
  | ls
  | cd (args : List UInt8)
  | get (args : List UInt8)
  | put (args : List UInt8)
  | sha (args : List UInt8)
  deriving DecidableEq, Repr

/-- The function that the client calls for a command. -/
@[simp] def Command.run (connected : Bool) (os : ClientOs) : Command → Proc Post Returned
  | ls => Client.doLs connected
  | cd args => Client.doCd connected args
  | get args => Client.doGet connected os args
  | put args => Client.doPut connected os args
  | sha args => Client.doSha connected args

end NetLabs.Ftp
