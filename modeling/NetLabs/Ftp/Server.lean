import NetLabs.Ftp.Files
import NetLabs.Lib.Session

/-!
# The FTP server

The handlers of `ftp_server.cpp` and one iteration of its event loop for a
request on a connection, as programs over that connection.

`Os` holds what the system calls of one iteration return, as functions of the
working directory and the path.  A `std::filesystem` call that throws ends the
process, as nothing catches the exception, and so does a write behind the end
of a buffer in this model.
-/

namespace NetLabs.Ftp

open Lib

abbrev Path := List UInt8

structure Os where
  /-- `fs::exists(path)`, `none` when it throws. -/
  fsExists : Path → Path → Option Bool
  /-- `fs::canonical(fs::absolute(path))`, `none` when it throws. -/
  fsCanonical : Path → Path → Option Path
  /-- The new working directory, `none` when `chdir` fails. -/
  chdir : Path → Path → Option Path
  /-- The output of a command line, `none` when `popen` fails. -/
  popen : Path → List UInt8 → Option (List UInt8)
  openRead : Path → Path → Option InFile
  openWrite : Path → Path → Option OutFile
  epollDel : Int → Bool
  close : Int → Bool
  /-- What the uninitialised buffer of the handler holds. -/
  stale : Nat → UInt8

/-- The globals of the server, the working directory of its process, and the
files it has written (directory, name, content), the last one first. -/
structure Server where
  cwd : Path
  dftPath : Path
  cwds : Int → Path
  registered : List Int
  written : List (Path × Path × List UInt8)

/-- `type2ind`, a division of `int`s that rounds towards zero. -/
def type2ind (type : UInt8) : Int := ((type.toNat : Int) - openRequest.toNat).tdiv 2

def fd2ind (fd : Int) : Int := fd - 2

namespace Server

/-- `cwds[fd2ind(fd)] = dir`. -/
def setCwds (s : Server) (fd : Int) (dir : Path) : Server :=
  { s with cwds := Function.update s.cwds (fd2ind fd) dir }

/-- The descriptor leaves the epoll set. -/
def unregister (s : Server) (fd : Int) : Server :=
  { s with registered := s.registered.filter (· ≠ fd) }

/-- The status byte for an existing path. -/
@[simp] def statusOf (found : Bool) : UInt8 := if found then 1 else 0

/-- The command line of `do_sha`. -/
def shaCommand (p : Path) : List UInt8 := literal "sha256sum " ++ p

/-- A handler of the table `funcs`, with the state it runs in. -/
abbrev Handler := Int → Path → Server → Proc Post (Int × Server)

variable (os : Os)

def doOpen : Handler := fun fd _ s => do
  if !(← .post ⟨openReply, 1, []⟩) then return (-1, s)
  return (0, s.setCwds fd s.dftPath)

def doQuit : Handler := fun fd _ s => do
  if !(← .post ⟨quitReply, 0, []⟩) then return (-1, s)
  let s := if os.epollDel fd then s.unregister fd else s
  if !os.close fd then return (-1, s)
  -- a closed descriptor leaves the epoll set by itself
  return (0, (s.unregister fd).setCwds fd (literal "NULL"))

def doLs : Handler := fun _ _ s => do
  let some output := os.popen s.cwd (literal "ls") | return (-1, s)
  let nread := min output.length maxbuf
  -- the terminator goes to `buf[nread]`
  if nread = maxbuf then .halt
  if !(← .post ⟨listReply, 0, output.take nread ++ [0]⟩) then return (-1, s)
  return (0, s)

def doCd : Handler := fun fd args s => do
  let some found := os.fsExists s.cwd args | .halt
  if !(← .post ⟨cdReply, statusOf found, []⟩) then return (-1, s)
  if found then
    let some dir := os.fsCanonical s.cwd args | .halt
    return (0, s.setCwds fd dir)
  return (0, s)

def doGet : Handler := fun _ args s => do
  let some found := os.fsExists s.cwd args | .halt
  if !(← .post ⟨getReply, statusOf found, []⟩) then return (-1, s)
  if !found then return (0, s)
  let (size, buf) := readFile (os.openRead s.cwd args) os.stale maxbuf
  -- the client has been promised a file
  if size < 0 then return (-1, s)
  if !(← .post ⟨fileData, 0, buf⟩) then return (-1, s)
  return (0, s)

def doPut : Handler := fun _ args s => do
  if !(← .post ⟨putReply, 0, []⟩) then return (-1, s)
  let some data ← .receive | return (-1, s)
  if data.type ≠ fileData then return (-1, s)
  match writeFile (os.openWrite s.cwd args) data.payload with
  | (code, none) => return (code, s)
  | (code, some content) => return (code, { s with written := (s.cwd, args, content) :: s.written })

def doSha : Handler := fun _ args s => do
  let some found := os.fsExists s.cwd args | .halt
  if !(← .post ⟨shaReply, statusOf found, []⟩) then return (-1, s)
  if !found then return (0, s)
  let some p := os.fsCanonical s.cwd args | .halt
  if maxbuf ≤ (shaCommand p).length then .halt
  let some output := os.popen s.cwd (shaCommand p) | return (-1, s)
  let nread := min output.length maxbuf
  if nread = maxbuf then .halt
  if !(← .post ⟨fileData, 0, output.take nread ++ [0]⟩) then return (-1, s)
  return (0, s)

def funcs : List Handler :=
  [doOpen, doLs os, doCd os, doGet os, doPut os, doSha os, doQuit os]

/-- The handler for a request type, when the index lies inside the table. -/
def handler (type : UInt8) : Option Handler :=
  if type2ind type < 0 then none else (funcs os)[(type2ind type).toNat]?

/-- `chdir(dft_path)`, whose failure is only reported. -/
def leave (s : Server) : Server :=
  match os.chdir s.cwd s.dftPath with
  | none => s
  | some dir => { s with cwd := dir }

/-- Run the handler and go back to `dft_path`. -/
def dispatch (fd : Int) (req : Post) (s : Server) : Proc Post Server := do
  let some func := handler os req.type | .halt
  let (_, s) ← func fd (cString req.payload) s
  return leave os s

/-- The event loop's body for a descriptor that is ready, from the result of
`recv_post` on. -/
def serve (fd : Int) (req : Option Post) (s : Server) : Proc Post Server :=
  match req with
  | none => return s
  | some req =>
    match os.fsExists s.cwd (s.cwds (fd2ind fd)) with
    | none => .halt
    | some false => dispatch os fd req s
    | some true =>
      match os.chdir s.cwd (s.cwds (fd2ind fd)) with
      -- `continue`: the request gets no answer
      | none => return s
      | some dir => dispatch os fd req { s with cwd := dir }

end Server

end NetLabs.Ftp
