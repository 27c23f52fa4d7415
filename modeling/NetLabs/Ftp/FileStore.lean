import NetLabs.Ftp.Complete
import NetLabs.Ftp.Stall
import NetLabs.Lib.StoreHistory

/-!
# The server as a store of files

Any number of clients put files on the server and get them, in any interleaving.
What a `get` sends is what the last `put` of that file has brought.

* `Loop.observe` is what a step of the loop does to the store: a `put` when the
  file data has been received and the file can be opened, a `got` when file data
  has been sent for a `get`.
* `Tracks` is what the rest of a handler will do to the files, one rule for each
  call, and `handler_tracks` holds of all of them.
* `Stored` is the invariant: the files that the server has written are the last
  ones of the history.
* `files_read_back`: the history of every run is legal, as long as the operating
  system gives back the files that the server has written.
-/

namespace NetLabs.Ftp

open Lib

variable {κ : Type} [DecidableEq κ]

/-! ## What is stored -/

/-- The content that was written last to a file.  `file` says which file a name
means in a directory. -/
def storedFile (file : Path → Path → κ) (key : κ) : List (Path × Path × List UInt8) →
    Option (List UInt8)
  | [] => none
  | (dir, name, content) :: written =>
    if file dir name = key then some content else storedFile file key written

theorem exists_of_storedFile {file : Path → Path → κ} {key : κ}
    {written : List (Path × Path × List UInt8)} {content : List UInt8}
    (h : storedFile file key written = some content) : ∃ entry ∈ written, entry.2.2 = content := by
  induction written with
  | nil => cases h
  | cons entry written ih =>
    obtain ⟨dir, name, bytes⟩ := entry
    rw [storedFile] at h
    by_cases hkey : file dir name = key
    · rw [if_pos hkey] at h
      exact ⟨_, List.mem_cons_self, Option.some.inj h⟩
    · rw [if_neg hkey] at h
      have ⟨entry, hmem, hcontent⟩ := ih h
      exact ⟨entry, List.mem_cons_of_mem _ hmem, hcontent⟩

/-- The files that the server has written are read as it has written them. -/
def Os.Shows (file : Path → Path → κ) (written : List (Path × Path × List UInt8)) (os : Os) :
    Prop :=
  ∀ dir name content, storedFile file (file dir name) written = some content →
    os.openRead dir name = some (.regular content)

/-- What `do_put` writes when it has received `m`. -/
def Server.uploads (os : Os) (s : Server) (args : Path) (m : Post) :
    List (Path × Path × List UInt8) :=
  if m.type = fileData then
    match os.openWrite s.cwd args with
    | none => []
    | some ofs => [(s.cwd, args, m.payload.take ofs.room)]
  else []

/-- A file that has been written, as an operation. -/
def putOf (file : Path → Path → κ) (entry : Path × Path × List UInt8) :
    StoreOp κ (List UInt8) :=
  .put (file entry.1 entry.2.1) entry.2.2

theorem Server.uploads_length {os : Os} {s : Server} {args : Path} {m : Post}
    {entry : Path × Path × List UInt8} (h : entry ∈ s.uploads os args m) :
    entry.2.2.length ≤ m.payload.length := by
  rw [uploads] at h
  split at h
  · split at h
    · cases h
    · rw [List.mem_singleton.mp h, List.length_take]
      omega
  · cases h

/-- What a step does to the store. -/
def Loop.observe (file : Path → Path → κ) (l : Loop) : Event → List (StoreOp κ (List UInt8))
  | .receive (some m) =>
    match l.phase with
    | .handling _ req os _ _ => (l.server.uploads os (cString req.payload) m).map (putOf file)
    | _ => []
  | .send true =>
    match l.phase with
    | .handling _ req _ (.send m _) _ =>
      -- `do_sha` sends its output as file data too
      if type2ind req.type = 3 ∧ m.type = fileData then
        [.got (file l.server.cwd (cString req.payload)) m.payload]
      else []
    | _ => []
  | _ => []

/-- A run with its history, the last operation first.  Each request finds the
files as they have been written. -/
inductive StoreRun (listenfd : Int) (dir : Path) (file : Path → Path → κ) :
    Loop → List (StoreOp κ (List UInt8)) → Prop
  | start : StoreRun listenfd dir file (Loop.start listenfd dir) []
  | step {l l' : Loop} {h : List (StoreOp κ (List UInt8))} {e : Event}
      (hrun : StoreRun listenfd dir file l h)
      (hshows : ∀ fd req os, e = .request fd req os → os.Shows file l.server.written)
      (hstep : LoopStep listenfd l e l') :
      StoreRun listenfd dir file l' (l.observe file e ++ h)

theorem StoreRun.reachable {listenfd : Int} {dir : Path} {file : Path → Path → κ} {l : Loop}
    {h : List (StoreOp κ (List UInt8))} (hrun : StoreRun listenfd dir file l h) :
    (eventLoop listenfd dir).Reachable l := by
  induction hrun with
  | start => exact .init rfl
  | step _ _ hstep ih => exact .step ih hstep

theorem lastPut_puts (file : Path → Path → κ) (key : κ)
    {entries written : List (Path × Path × List UInt8)} {h : List (StoreOp κ (List UInt8))}
    (hsame : lastPut key h = storedFile file key written) :
    lastPut key (entries.map (putOf file) ++ h) = storedFile file key (entries ++ written) := by
  induction entries with
  | nil => exact hsame
  | cons entry entries ih =>
    obtain ⟨dir, name, content⟩ := entry
    rw [List.map_cons, List.cons_append, putOf, lastPut_put, ih]
    rfl

/-- A file that fits the buffer is read whole. -/
theorem readPart_eq {content : List UInt8} (h : content.length ≤ maxbuf) :
    readPart content = content := by
  have htake := take_readPart_iff.mpr ⟨h, le_refl content.length⟩
  have hshort : (readPart content).length ≤ content.length := by
    rw [readPart, List.length_take]
    omega
  rwa [List.take_of_length_le hshort] at htake

theorem legal_puts (file : Path → Path → κ) (entries : List (Path × Path × List UInt8))
    {h : List (StoreOp κ (List UInt8))} (hlegal : Legal h) :
    Legal (entries.map (putOf file) ++ h) := by
  induction entries with
  | nil => exact hlegal
  | cons entry entries ih => exact ih

/-! ## What a handler does to the files -/

/-- The rest of a handler leaves the files as they are, unless it receives. -/
inductive Tracks (os : Os) (s : Server) (args : Path) : Proc Post (Int × Server) → Prop
  | done {code : Int} {s' : Server} (hwritten : s'.written = s.written) :
      Tracks os s args (.done (code, s'))
  | halt : Tracks os s args .halt
  | send {m : Post} {next : Bool → Proc Post (Int × Server)} (hnext : ∀ ok, Tracks os s args (next ok)) :
      Tracks os s args (.send m next)
  | recv {next : Option Post → Proc Post (Int × Server)} (hnone : Tracks os s args (next none))
      (hsome : ∀ m, ∃ code s', next (some m) = .done (code, s') ∧
        s'.written = s.uploads os args m ++ s.written) :
      Tracks os s args (.recv next)

namespace Server

variable {os : Os} {fd : Int} {args : Path} {s : Server}

theorem tracks_of_deaf {p : Proc Post (Int × Server)} (hdeaf : p.Deaf)
    (hp : p.Returns fun x => x.2.written = s.written) : Tracks os s args p := by
  induction hdeaf with
  | done a =>
    cases hp with
    | done hwritten => exact .done hwritten
  | halt => exact .halt
  | send _ ih =>
    cases hp with
    | send _ hnext => exact .send fun ok => ih ok (hnext ok)

theorem doOpen_deaf : (doOpen fd args s).Deaf := .post (.done _) (.done _)

theorem doLs_deaf : (doLs os fd args s).Deaf := by
  unfold doLs
  cases os.popen s.cwd (literal "ls") with
  | none => exact .done _
  | some output =>
    by_cases hfull : min output.length maxbuf = maxbuf
    · simp only [if_pos hfull]
      exact .halt
    · simp only [if_neg hfull]
      exact .post (.done _) (.done _)

theorem doCd_deaf : (doCd os fd args s).Deaf := by
  unfold doCd
  cases os.fsExists s.cwd args with
  | none => exact .halt
  | some found =>
    refine .post (.done _) ?_
    cases found with
    | false => exact .done _
    | true =>
      cases os.fsCanonical s.cwd args with
      | none => exact .halt
      | some dir => exact .done _

theorem doGet_deaf : (doGet os fd args s).Deaf := by
  unfold doGet
  cases os.fsExists s.cwd args with
  | none => exact .halt
  | some found =>
    refine .post (.done _) ?_
    cases found with
    | false => exact .done _
    | true =>
      generalize readFile (os.openRead s.cwd args) os.stale maxbuf = read
      show Proc.Deaf (if read.1 < 0 then _ else _)
      by_cases hsize : read.1 < 0
      · rw [if_pos hsize]
        exact .done _
      · rw [if_neg hsize]
        exact .post (.done _) (.done _)

theorem doSha_deaf : (doSha os fd args s).Deaf := by
  unfold doSha
  cases os.fsExists s.cwd args with
  | none => exact .halt
  | some found =>
    refine .post (.done _) ?_
    cases found with
    | false => exact .done _
    | true =>
      cases os.fsCanonical s.cwd args with
      | none => exact .halt
      | some p =>
        show Proc.Deaf (if maxbuf ≤ (shaCommand p).length then _ else _)
        by_cases htext : maxbuf ≤ (shaCommand p).length
        · rw [if_pos htext]
          exact .halt
        · rw [if_neg htext]
          cases os.popen s.cwd (shaCommand p) with
          | none => exact .done _
          | some output =>
            show Proc.Deaf (if min output.length maxbuf = maxbuf then _ else _)
            by_cases hfull : min output.length maxbuf = maxbuf
            · rw [if_pos hfull]
              exact .halt
            · rw [if_neg hfull]
              exact .post (.done _) (.done _)

/-- `do_put` is the only handler that writes a file. -/
theorem doPut_tracks : Tracks os s args (doPut os fd args s) := by
  refine .send fun ok => ?_
  cases ok with
  | false => exact .done rfl
  | true =>
    refine .recv (.done rfl) fun data => ?_
    show ∃ code s', (if data.type ≠ fileData then _ else _) = _ ∧ _
    rw [uploads]
    by_cases htype : data.type = fileData
    · rw [if_neg (not_not.mpr htype), if_pos htype]
      cases os.openWrite s.cwd args with
      | none => exact ⟨_, _, rfl, rfl⟩
      | some ofs => exact ⟨_, _, rfl, rfl⟩
    · rw [if_pos htype, if_neg htype]
      exact ⟨_, _, rfl, rfl⟩

theorem handler_tracks {type : UInt8} {func : Handler} (h : handler os type = some func) :
    Tracks os s args (func fd args s) := by
  rcases handler_cases h with ⟨_, rfl⟩ | ⟨_, rfl⟩ | ⟨_, rfl⟩ | ⟨_, rfl⟩ | ⟨_, rfl⟩ | ⟨_, rfl⟩ |
    ⟨_, rfl⟩
  · refine tracks_of_deaf doOpen_deaf (doOpen_returns.mono fun x hx => ?_)
    rcases hx with rfl | rfl <;> rfl
  · exact tracks_of_deaf doLs_deaf (doLs_returns.mono fun x hx => by rw [hx])
  · refine tracks_of_deaf doCd_deaf (doCd_returns.mono fun x hx => ?_)
    rcases hx with rfl | ⟨_, rfl⟩ | ⟨_, dir, _, rfl⟩ <;> rfl
  · exact tracks_of_deaf doGet_deaf (doGet_returns.mono fun x hx => by rw [hx])
  · exact doPut_tracks
  · exact tracks_of_deaf doSha_deaf (doSha_returns.mono fun x hx => by rw [hx])
  · refine tracks_of_deaf doQuit_deaf (doQuit_returns.mono fun x hx => ?_)
    rcases hx with rfl | ⟨_, rfl⟩ | ⟨_, rfl⟩ <;> rfl

theorem leave_written : (leave os s).written = s.written := by
  rw [leave]
  split <;> rfl

end Server

/-! ## The invariant -/

/-- What has been written when only `prog` is left of the handler. -/
def writtenAt (s : Server) : Proc Post (Int × Server) → List (Path × Path × List UInt8)
  | .done (_, s') => s'.written
  | _ => s.written

theorem Tracks.writtenAt {os : Os} {s : Server} {args : Path} {prog : Proc Post (Int × Server)}
    (h : Tracks os s args prog) : Ftp.writtenAt s prog = s.written := by
  cases h with
  | done hwritten => exact hwritten
  | halt | send | recv => rfl

/-- A handler that receives has written nothing yet. -/
theorem writtenAt_of_receiving {fd fd' : Int} {req : Post} {os : Os}
    {prog : Proc Post (Int × Server)} {todo : List Int} {s : Server}
    (h : (Phase.handling fd req os prog todo).receiving = some fd') :
    writtenAt s prog = s.written := by
  cases prog with
  | done x => cases h
  | halt | send | recv => rfl

/-- The files that have been written, by a handler that still runs too. -/
def Loop.written (l : Loop) : List (Path × Path × List UInt8) :=
  match l.phase with
  | .handling _ _ _ prog _ => writtenAt l.server prog
  | _ => l.server.written

/-- The history ends with what the server has written. -/
structure Loop.Stored (file : Path → Path → κ) (l : Loop) (h : List (StoreOp κ (List UInt8))) :
    Prop where
  content : ∀ key, lastPut key h = storedFile file key l.written
  small : ∀ entry ∈ l.written, entry.2.2.length ≤ maxbuf
  legal : Legal h
  handler : ∀ fd req os prog todo, l.phase = .handling fd req os prog todo →
    os.Shows file l.server.written ∧
      (Tracks os l.server (cString req.payload) prog ∨ ∃ x, prog = .done x)

namespace Loop

variable {listenfd : Int} {dir : Path} {file : Path → Path → κ} {l l' : Loop} {e : Event}
  {h : List (StoreOp κ (List UInt8))}

theorem stored_start : (start listenfd dir).Stored file [] :=
  ⟨fun _ => rfl, nofun, trivial, nofun⟩

/-- A step that writes nothing and leaves no handler running. -/
theorem Stored.idle (hs : l.Stored file h) (hwritten : l'.server.written = l.written)
    (hidle : ∀ fd req os prog todo, l'.phase ≠ .handling fd req os prog todo) :
    l'.Stored file h := by
  have hsame : l'.written = l.written := by
    rw [written]
    split
    · next hphase => exact absurd hphase (hidle _ _ _ _ _)
    · exact hwritten
  refine ⟨fun key => ?_, ?_, hs.legal, fun fd req os prog todo hphase =>
    absurd hphase (hidle _ _ _ _ _)⟩
  · rw [hsame]
    exact hs.content key
  · rw [hsame]
    exact hs.small

/-- A handler goes on and has written nothing yet. -/
theorem Stored.goes_on (hs : l.Stored file h) (hwritten : l'.server.written = l.written)
    {fd : Int} {req : Post} {os : Os} {prog : Proc Post (Int × Server)} {todo : List Int}
    (hphase : l'.phase = .handling fd req os prog todo)
    (hshows : os.Shows file l'.server.written)
    (htracks : Tracks os l'.server (cString req.payload) prog) : l'.Stored file h := by
  have hsame : l'.written = l.written := by
    rw [written, hphase]
    exact htracks.writtenAt.trans hwritten
  refine ⟨fun key => ?_, ?_, hs.legal, fun fd' req' os' prog' todo' hphase' => ?_⟩
  · rw [hsame]
    exact hs.content key
  · rw [hsame]
    exact hs.small
  · rw [hphase] at hphase'
    cases hphase'
    exact ⟨hshows, .inl htracks⟩

/-- A handler that waits for a call has written nothing yet. -/
theorem Stored.tracks (hs : l.Stored file h) {fd : Int} {req : Post} {os : Os}
    {prog : Proc Post (Int × Server)} {todo : List Int}
    (hphase : l.phase = .handling fd req os prog todo) (hcalls : ∀ x, prog ≠ .done x) :
    os.Shows file l.server.written ∧ Tracks os l.server (cString req.payload) prog ∧
      l.server.written = l.written := by
  have ⟨hshows, hrest⟩ := hs.handler _ _ _ _ _ hphase
  rcases hrest with htracks | ⟨x, hdone⟩
  · refine ⟨hshows, htracks, ?_⟩
    rw [written, hphase]
    exact htracks.writtenAt.symm
  · exact absurd hdone (hcalls x)

/-- The file data of a `get` is what was written last. -/
theorem Stored.got (hs : l.Stored file h) (horderly : l.Orderly listenfd) {fd : Int}
    {req m : Post} {os : Os} {next : Bool → Proc Post (Int × Server)} {todo : List Int}
    (hphase : l.phase = .handling fd req os (.send m next) todo) (hget : type2ind req.type = 3)
    (hdata : m.type = fileData) {v : List UInt8}
    (hput : lastPut (file l.server.cwd (cString req.payload)) h = some v) : m.payload = v := by
  obtain ⟨hshows, _, hwritten⟩ := hs.tracks hphase nofun
  rw [hs.content, ← hwritten] at hput
  obtain ⟨entry, hmem, hcontent⟩ := exists_of_storedFile hput
  have hsmall := hs.small entry (hwritten ▸ hmem)
  rw [hcontent] at hsmall
  obtain ⟨_, func, hfunc, hleaves⟩ := horderly.remains _ _ _ _ _ hphase
  rw [Server.handler, hget] at hfunc
  cases hfunc
  have hkeeps := hleaves.keeps (doGet_server_keeps fd (hshows _ _ _ hput))
  cases hkeeps with
  | send hm _ =>
    obtain ⟨_, _, heq⟩ := hm hdata
    rw [heq, readPart_eq hsmall]

/-- Every step keeps the invariant. -/
theorem Stored.step (hs : l.Stored file h) (horderly : l.Orderly listenfd)
    (hshows : ∀ fd req os, e = .request fd req os → os.Shows file l.server.written)
    (hstep : LoopStep listenfd l e l') : l'.Stored file (l.observe file e ++ h) := by
  cases hstep with
  | connect | pending | peer => exact ⟨hs.content, hs.small, hs.legal, hs.handler⟩
  | poll hphase | acceptFailed hphase | lost hphase | dropped _ hphase =>
    refine hs.idle ?_ nofun
    rw [written, hphase]
    rfl
  | @accept fd added c backlog todo hphase =>
    refine hs.idle ?_ nofun
    rw [written, hphase]
    cases added <;> rfl
  | @request fd req os c rest dir func todo hphase hne hconn harrived hdir hfunc =>
    refine hs.goes_on ?_ rfl (hshows fd req os rfl) (Server.handler_tracks hfunc)
    rw [written, hphase]
  | @send fd req m os next c todo hphase hconn hroom =>
    have ⟨hshows', htracks, hwritten⟩ := hs.tracks hphase nofun
    cases htracks with
    | send hnext =>
      have hgoes : ((l.setConn fd (some { c with room := c.room - m.bytes.length })).goto
          (.handling fd req os (next true) todo)).Stored file h :=
        hs.goes_on hwritten rfl hshows' (hnext true)
      simp only [observe, hphase]
      by_cases hget : type2ind req.type = 3 ∧ m.type = fileData
      · rw [if_pos hget]
        have hgot := fun v => hs.got horderly hphase hget.1 hget.2 (v := v)
        exact ⟨hgoes.content, hgoes.small, ⟨hgot, hgoes.legal⟩, hgoes.handler⟩
      · rw [if_neg hget]
        exact hgoes
  | @sendFailed fd req m os next c todo hphase hconn hended =>
    have ⟨hshows', htracks, hwritten⟩ := hs.tracks hphase nofun
    cases htracks with
    | send hnext => exact hs.goes_on hwritten rfl hshows' (hnext false)
  | @receive fd req m os next c rest todo hphase hconn harrived =>
    have ⟨hshows', htracks, hwritten⟩ := hs.tracks hphase nofun
    cases htracks with
    | recv _ hsome =>
      have ⟨code, s', hnext, hlonger⟩ := hsome m
      have hsize := (arrived_post_iff.mp harrived).2
      rw [hwritten] at hlonger
      simp only [observe, hphase, hnext]
      refine ⟨fun key => ?_, fun entry hmem => ?_, legal_puts file _ hs.legal, ?_⟩
      · show _ = storedFile file key s'.written
        rw [hlonger]
        exact lastPut_puts file key (hs.content key)
      · have hmem' : entry ∈ s'.written := hmem
        rw [hlonger] at hmem'
        rcases List.mem_append.mp hmem' with hnew | hold
        · have hcut := Server.uploads_length hnew
          rw [hsize.2.1, List.length_take] at hcut
          omega
        · exact hs.small entry hold
      · rintro _ _ _ _ _ ⟨⟩
        exact ⟨hshows', .inr ⟨_, rfl⟩⟩
  | @receiveFailed fd req os next c todo hphase hconn hended harrived =>
    have ⟨hshows', htracks, hwritten⟩ := hs.tracks hphase nofun
    cases htracks with
    | recv hnone _ => exact hs.goes_on hwritten rfl hshows' hnone
  | @finish fd req os code s todo hphase =>
    refine hs.idle ?_ nofun
    rw [written, hphase]
    exact Server.leave_written
  | overrun hreceiving hconn harrived =>
    refine hs.idle ?_ nofun
    rw [written]
    split
    · next hphase =>
      rw [hphase] at hreceiving
      exact (writtenAt_of_receiving hreceiving).symm
    · rfl
  | badRequest os hphase | halt hphase | sigpipe hphase =>
    refine hs.idle ?_ nofun
    rw [written, hphase]
    rfl

theorem stored_of_run (hrun : StoreRun listenfd dir file l h) : l.Stored file h := by
  induction hrun with
  | start => exact stored_start
  | step hrun hshows hstep ih => exact ih.step (orderly_of_reachable hrun.reachable) hshows hstep

end Loop

/-- **Files are read back**: in every run of the server with any number of
clients, what a `get` sends is what was written last to that file, by whichever
client, as long as the operating system keeps the files of the server. -/
theorem files_read_back {listenfd : Int} {dir : Path} {file : Path → Path → κ} {l : Loop}
    {newer older : List (StoreOp κ (List UInt8))} {key : κ} {value v : List UInt8}
    (hrun : StoreRun listenfd dir file l (newer ++ .got key value :: older))
    (hput : lastPut key older = some v) : value = v :=
  (Loop.stored_of_run hrun).legal.got_eq hput

/-! ## A file that is put and got -/

/-- The requests for a file called `f` with one byte. -/
def putF : Post := ⟨putRequest, 0, literal "f" ++ [0]⟩

def dataF : Post := ⟨fileData, 0, [7]⟩

def getF : Post := ⟨getRequest, 0, literal "f" ++ [0]⟩

/-- Everything has arrived. -/
def storingConn : Conn :=
  { freshConn with unread := putF.bytes ++ (dataF.bytes ++ (getF.bytes ++ [])) }

/-- The file is there. -/
def storingOs : Os :=
  { plainOs with
    fsExists := fun _ path => some (path = literal "f")
    openRead := fun _ _ => some (.regular [7]) }

theorem shows_storingOs :
    storingOs.Shows Prod.mk [(literal "/srv", literal "f", [7])] := by
  intro dir name content hcontent
  rw [storedFile] at hcontent
  by_cases hkey : (literal "/srv", literal "f") = (dir, name)
  · rw [if_pos hkey] at hcontent
    cases hcontent
    rfl
  · rw [if_neg hkey] at hcontent
    cases hcontent

/-- A client puts a file and gets it back. -/
theorem files_read_back_one :
    ∃ l, StoreRun 3 (literal "/srv") Prod.mk l
        ([] ++ .got (literal "/srv", literal "f") [7] ::
          [.put (literal "/srv", literal "f") [7]]) ∧
      ([7] : List UInt8) = [7] := by
  have hshort : ∀ p : Post, p.payload.length ≤ 2 → p.Fits := fun p hp =>
    le_trans hp (by decide)
  have hstart : StoreRun 3 (literal "/srv") Prod.mk (Loop.start 3 (literal "/srv")) [] := .start
  have hconnect := StoreRun.step hstart nofun (.connect storingConn rfl)
  have hpoll := StoreRun.step hconnect nofun (.poll rfl (Loop.polls_start storingConn))
  have haccept : StoreRun 3 (literal "/srv") Prod.mk (oneClient storingConn) [] :=
    StoreRun.step (e := .accept 5 true) hpoll nofun (.accept rfl rfl rfl (by decide))
  have hpoll' := StoreRun.step haccept nofun
    (.poll rfl (Loop.polls_client rfl rfl (by decide) rfl (List.cons_ne_nil _ _)))
  have hempty : plainOs.Shows (Prod.mk : Path → Path → Path × Path) [] := nofun
  have hput := StoreRun.step (e := .request 5 putF plainOs) hpoll'
    (by rintro _ _ _ ⟨⟩; exact hempty)
    (.request rfl (by decide) rfl (arrived_bytes (hshort putF (by decide)) _)
      (show Server.handlerDir plainOs 5 _ = some (literal "/srv") from rfl) rfl)
  have hputReply := StoreRun.step (e := .send true) hput nofun (.send rfl rfl (by decide))
  have hdata := StoreRun.step (e := .receive (some dataF)) hputReply nofun
    (.receive rfl rfl (arrived_bytes (hshort dataF (by decide)) _))
  have hfinish := StoreRun.step (e := .finish) hdata nofun (.finish rfl)
  have hpoll'' := StoreRun.step (e := .poll [5]) hfinish nofun
    (.poll rfl (Loop.polls_client rfl rfl (by decide) rfl (List.cons_ne_nil _ _)))
  have hget := StoreRun.step (e := .request 5 getF storingOs) hpoll''
    (by rintro _ _ _ ⟨⟩; exact shows_storingOs)
    (.request rfl (by decide) rfl (arrived_bytes (hshort getF (by decide)) _)
      (show Server.handlerDir storingOs 5 _ = some (literal "/srv") from rfl) rfl)
  have hgetReply := StoreRun.step (e := .send true) hget nofun (.send rfl rfl (by decide))
  have hgot := StoreRun.step (e := .send true) hgetReply nofun (.send rfl rfl (by decide))
  have hrun : StoreRun 3 (literal "/srv") Prod.mk _
      ([] ++ .got (literal "/srv", literal "f") [7] ::
        [.put (literal "/srv", literal "f") [7]]) := hgot
  exact ⟨_, hrun, files_read_back hrun (if_pos rfl)⟩

end NetLabs.Ftp
