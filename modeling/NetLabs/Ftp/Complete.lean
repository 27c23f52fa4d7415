import NetLabs.Ftp.Framing
import NetLabs.Ftp.InStep
import NetLabs.Lib.Contract

/-!
# Complete transfers

`read_file` reads at most `MAXBUF` bytes of a file, and `write_file` does not
look at the stream after it has written.  Neither is reported, so a transfer can
succeed on both sides and leave a part of the file behind.

* `readFile_regular` says which bytes of a file are moved.
* The contracts of the two sides say what a transfer that succeeds has moved,
  on a connection on which sends and receives may fail.
* `transfer_complete_iff` puts them together for both directions.
-/

namespace NetLabs.Ftp

open Lib Relation

/-- A regular file: its end is where its bytes end. -/
def InFile.regular (content : List UInt8) : InFile := ⟨content.length, content⟩

/-- When the local `do_get` has returned 0, its file is the server's.  A run
starts when the request has arrived, and any call on the connection may fail. -/
def GetComplete (cos : ClientOs) (os : Os) (fd : Int) (args : List UInt8) (s : Server)
    (content : List UInt8) : Prop :=
  ∀ u, ReflTransGen FaultyStep
      ⟨(Client.doGet true cos args).sent, Server.doGet os fd (cString args) s, [], []⟩ u →
    ∀ r, u.left = .done r → r.code = 0 → r.saved = some content

/-- When `do_put` has returned 0 on both sides, the server's file is the
client's. -/
def PutComplete (cos : ClientOs) (os : Os) (fd : Int) (args : List UInt8) (s : Server)
    (content : List UInt8) : Prop :=
  ∀ u, ReflTransGen FaultyStep
      ⟨(Client.doPut true cos args).sent, Server.doPut os fd (cString args) s, [], []⟩ u →
    ∀ r s', u.left = .done r → u.right = .done (0, s') → r.code = 0 →
      s'.written = (s.cwd, cString args, content) :: s.written

/-- A file of `size` bytes fits the buffer and the place it is written to, or
its size is negative as an `int`. -/
def FitsWhole (size : Nat) (ofs : Option OutFile) : Prop :=
  ∀ file, ofs = some file → toInt size < 0 ∨ size ≤ maxbuf ∧ size ≤ file.room

/-- The part of a file that `read_file` reads. -/
def readPart (content : List UInt8) : List UInt8 :=
  content.take (min (maxbuf : Int) (toInt content.length)).toNat

/-! ## The bytes that are moved -/

theorem toInt_le {n : Nat} : toInt n ≤ n := by
  rw [toInt, Int.bmod_def]
  split <;> omega

theorem readFile_regular (content : List UInt8) (stale : Nat → UInt8) :
    readFile (some (.regular content)) stale maxbuf =
      (min (maxbuf : Int) (toInt content.length), readPart content) := by
  have hle := @toInt_le content.length
  simp only [readFile, InFile.regular, readPart, Prod.mk.injEq, true_and]
  apply List.ext_getElem
  · simp only [List.length_map, List.length_range, List.length_take]
    omega
  · intro i hi hi'
    simp only [List.length_map, List.length_range] at hi
    simp only [List.length_take] at hi'
    have hlt : i < content.length := by omega
    simp [List.getD_eq_getElem?_getD, hlt]

theorem min_maxbuf_neg {z : Int} : min (maxbuf : Int) z < 0 ↔ z < 0 := by
  have hmax : (0 : Int) ≤ maxbuf := maxbuf_nonneg
  omega

/-- What arrives is the whole file exactly when it fits the buffer and the place
it is written to. -/
theorem take_readPart_iff {content : List UInt8} {room : Nat} :
    (readPart content).take room = content ↔
      content.length ≤ maxbuf ∧ content.length ≤ room := by
  constructor
  · intro h
    have hlength := congrArg List.length h
    simp only [readPart, List.length_take] at hlength
    omega
  · rintro ⟨hmax, hroom⟩
    have hbound : maxbuf = 2097152 := rfl
    have hint : toInt content.length = content.length := toInt_natCast (by omega)
    rw [readPart, hint, List.take_take, List.take_of_length_le]
    omega

/-! ## What the two sides keep -/

section Contracts

variable {cos : ClientOs} {os : Os} (fd : Int) {args : List UInt8} {s : Server}
  {R : Post → Prop} {content : List UInt8}

/-- A `do_get` that returns 0 has written the file data it received. -/
theorem doGet_client_keeps :
    (Client.doGet true cos args).sent.Keeps R (fun _ => True) fun r =>
      r.code = 0 → ∃ data file, R data ∧ data.type = fileData ∧
        cos.openWrite (cString args) = some file ∧
          r.saved = some (data.payload.take file.room) := by
  refine .recv (.done nofun) fun reply _ => ?_
  show Proc.Keeps _ _ _ (if reply.type ≠ getReply ∨ reply.status ≠ 1 then _ else _)
  by_cases hreply : reply.type ≠ getReply ∨ reply.status ≠ 1
  · rw [if_pos hreply]
    exact .done nofun
  · rw [if_neg hreply]
    refine .recv (.done nofun) fun data hdata => ?_
    show Proc.Keeps _ _ _ (if data.type ≠ fileData then _ else _)
    by_cases htype : data.type = fileData
    · rw [if_neg (not_not.mpr htype)]
      refine .done fun hcode => ?_
      cases hopen : cos.openWrite (cString args) with
      | none =>
        rw [hopen] at hcode
        cases hcode
      | some file => exact ⟨data, file, hdata, htype, rfl, rfl⟩
    · rw [if_pos htype]
      exact .done nofun

/-- The only file data that `do_get` of the server sends is what it has read. -/
theorem doGet_server_keeps (hopen : os.openRead s.cwd args = some (.regular content)) :
    (Server.doGet os fd args s).Keeps (fun _ => True)
      (fun m => m.type = fileData →
        os.fsExists s.cwd args = some true ∧ ¬ toInt content.length < 0 ∧
          m = ⟨fileData, 0, readPart content⟩)
      fun _ => True := by
  cases hexists : os.fsExists s.cwd args with
  | none =>
    simp only [Server.doGet, hexists]
    exact .halt
  | some found =>
    simp only [Server.doGet, hexists, hopen, readFile_regular, min_maxbuf_neg]
    refine .post ?_ (.done trivial) ?_
    · intro hfile
      cases hfile
    cases found with
    | false => exact .done trivial
    | true =>
      by_cases hsize : toInt content.length < 0
      · simp only [if_pos hsize]
        exact .done trivial
      · simp only [if_neg hsize]
        refine .post ?_ (.done trivial) (.done trivial)
        exact fun _ => ⟨trivial, hsize, rfl⟩

/-- The only file data that `do_put` of the client sends is what it has read. -/
theorem doPut_client_keeps (hopen : cos.openRead (cString args) = some (.regular content)) :
    (Client.doPut true cos args).sent.Keeps R
      (fun m => ¬ toInt content.length < 0 ∧ m = ⟨fileData, 0, readPart content⟩)
      fun _ => True := by
  simp only [Client.doPut, hopen, readFile_regular, min_maxbuf_neg]
  refine .recv (.done trivial) fun reply _ => ?_
  show Proc.Keeps _ _ _ (if reply.type ≠ putReply then _ else _)
  by_cases hreply : reply.type ≠ putReply
  · rw [if_pos hreply]
    exact .done trivial
  · rw [if_neg hreply]
    by_cases hsize : toInt content.length < 0
    · simp only [if_pos hsize]
      exact .done trivial
    · simp only [if_neg hsize]
      refine .post ?_ (.done trivial) (.done trivial)
      exact ⟨hsize, rfl⟩

/-- A `do_put` of the server that returns 0 has written the data it received. -/
theorem doPut_server_keeps :
    (Server.doPut os fd args s).Keeps R (fun _ => True) fun r =>
      r.1 = 0 → ∃ data file, R data ∧ os.openWrite s.cwd args = some file ∧
        r.2.written = (s.cwd, args, data.payload.take file.room) :: s.written := by
  refine .post trivial (.done nofun) (.recv (.done nofun) fun data hdata => ?_)
  show Proc.Keeps _ _ _ (if data.type ≠ fileData then _ else _)
  by_cases htype : data.type ≠ fileData
  · rw [if_pos htype]
    exact .done nofun
  · rw [if_neg htype]
    cases hopen : os.openWrite s.cwd args with
    | none => exact .done nofun
    | some file => exact .done fun _ => ⟨data, file, hdata, rfl, rfl⟩

/-! ## The two sides in lockstep -/

theorem meet_doGet {file : OutFile}
    (hopen : os.openRead s.cwd (cString args) = some (.regular content))
    (hexists : os.fsExists s.cwd (cString args) = some true) (hsize : ¬ toInt content.length < 0)
    (hwrite : cos.openWrite (cString args) = some file) :
    (Client.doGet true cos args).sent.meet (Server.doGet os fd (cString args) s) =
      (.done ⟨0, some ((readPart content).take file.room), []⟩, .done (0, s)) := by
  simp [Client.doGet, Server.doGet, hexists, hopen, readFile_regular, hsize,
    maxbuf_nonneg.not_gt, hwrite, writeFile]

theorem meet_doPut {file : OutFile}
    (hopen : cos.openRead (cString args) = some (.regular content))
    (hsize : ¬ toInt content.length < 0)
    (hwrite : os.openWrite s.cwd (cString args) = some file) :
    (Client.doPut true cos args).sent.meet (Server.doPut os fd (cString args) s) =
      (.done ⟨0, none, []⟩,
        .done (0, { s with
          written := (s.cwd, cString args, (readPart content).take file.room) :: s.written })) := by
  simp [Client.doPut, Server.doPut, hopen, readFile_regular, hsize, maxbuf_nonneg.not_gt, hwrite,
    writeFile]

/-! ## The two directions -/

theorem getComplete_iff (hopen : os.openRead s.cwd (cString args) = some (.regular content)) :
    GetComplete cos os fd args s content ↔
      (os.fsExists s.cwd (cString args) = some true →
        FitsWhole content.length (cos.openWrite (cString args))) := by
  constructor
  · intro h hexists file hwrite
    by_cases hsize : toInt content.length < 0
    · exact .inl hsize
    · right
      have hmeet := meet_doGet fd hopen hexists hsize hwrite
      have hrun := faulty_reaches_meet (Client.doGet true cos args).sent
        (Server.doGet os fd (cString args) s)
      rw [hmeet] at hrun
      have hsaved := h _ hrun _ rfl rfl
      exact take_readPart_iff.mp (Option.some.inj hsaved)
  · intro h u hrun r hr hcode
    have hkept := kept_of_reaches hrun
      ⟨doGet_client_keeps, doGet_server_keeps fd hopen, nofun, nofun⟩
    have ⟨data, file, hread, htype, hwrite, hsaved⟩ := hkept.left_done hr hcode
    have ⟨hexists, hsize, hdata⟩ := hread htype
    have hfits := (h hexists file hwrite).resolve_left hsize
    rw [hsaved, hdata, take_readPart_iff.mpr hfits]

theorem putComplete_iff (hopen : cos.openRead (cString args) = some (.regular content)) :
    PutComplete cos os fd args s content ↔
      FitsWhole content.length (os.openWrite s.cwd (cString args)) := by
  constructor
  · intro h file hwrite
    by_cases hsize : toInt content.length < 0
    · exact .inl hsize
    · right
      have hmeet := meet_doPut fd hopen hsize hwrite
      have hrun := faulty_reaches_meet (Client.doPut true cos args).sent
        (Server.doPut os fd (cString args) s)
      rw [hmeet] at hrun
      have hwritten := h _ hrun _ _ rfl rfl rfl
      have hbytes : (readPart content).take file.room = content := by simpa using hwritten
      exact take_readPart_iff.mp hbytes
  · intro h u hrun r s' _ hs' _
    have hkept := kept_of_reaches hrun
      ⟨doPut_client_keeps hopen, doPut_server_keeps fd, nofun, nofun⟩
    have ⟨data, file, ⟨hsize, hdata⟩, hwrite, hwritten⟩ := hkept.right_done hs' rfl
    have hfits := (h file hwrite).resolve_left hsize
    rw [hwritten, hdata, take_readPart_iff.mpr hfits]

end Contracts

/-- **A reported transfer is complete** exactly when the file fits the buffer
and the place it is written to: the files that do not fit are cut off, and both
sides return 0.  (A file whose size is negative as an `int` is never moved.) -/
theorem transfer_complete_iff (cos : ClientOs) (os : Os) (fd : Int) (args : List UInt8)
    (s : Server) (content : List UInt8) :
    (os.openRead s.cwd (cString args) = some (.regular content) →
      (GetComplete cos os fd args s content ↔
        (os.fsExists s.cwd (cString args) = some true →
          FitsWhole content.length (cos.openWrite (cString args))))) ∧
    (cos.openRead (cString args) = some (.regular content) →
      (PutComplete cos os fd args s content ↔
        FitsWhole content.length (os.openWrite s.cwd (cString args)))) :=
  ⟨getComplete_iff fd, putComplete_iff fd⟩

/-! ## A file that is longer than the buffer -/

/-- A server whose only files hold these bytes. -/
def filesOs (content : List UInt8) : Os where
  fsExists _ _ := some true
  fsCanonical _ path := some path
  chdir _ path := some path
  popen _ _ := some []
  openRead _ _ := some (.regular content)
  openWrite _ _ := some ⟨2 * maxbuf⟩
  epollDel _ := true
  close _ := true
  stale _ := 0

/-- A client whose only files hold these bytes. -/
def filesClient (content : List UInt8) : ClientOs :=
  ⟨fun _ => some (.regular content), fun _ => some ⟨2 * maxbuf⟩, fun _ => 0⟩

/-- `get a` and `put a` of a file of three bytes. -/
theorem transfer_complete_three :
    GetComplete (filesClient [1, 2, 3]) (filesOs [1, 2, 3]) 5 (literal "a") openedServer [1, 2, 3] ∧
      PutComplete (filesClient [1, 2, 3]) (filesOs [1, 2, 3]) 5 (literal "a") openedServer
        [1, 2, 3] := by
  have h := transfer_complete_iff (filesClient [1, 2, 3]) (filesOs [1, 2, 3]) 5 (literal "a")
    openedServer [1, 2, 3]
  have hfits : FitsWhole 3 (some ⟨2 * maxbuf⟩) := by
    rintro _ ⟨⟩
    exact .inr ⟨by decide, by decide⟩
  exact ⟨(h.1 rfl).mpr fun _ => hfits, (h.2 rfl).mpr hfits⟩

/-- `get a` and `put a` of a file of `MAXBUF + 1` bytes lose the last byte. -/
theorem longFile_cut_off :
    ¬ GetComplete (filesClient (List.replicate (maxbuf + 1) 0))
        (filesOs (List.replicate (maxbuf + 1) 0)) 5 (literal "a") openedServer
        (List.replicate (maxbuf + 1) 0) ∧
      ¬ PutComplete (filesClient (List.replicate (maxbuf + 1) 0))
        (filesOs (List.replicate (maxbuf + 1) 0)) 5 (literal "a") openedServer
        (List.replicate (maxbuf + 1) 0) := by
  have hnot : ¬ FitsWhole (List.replicate (maxbuf + 1) (0 : UInt8)).length
      (some ⟨2 * maxbuf⟩) := by
    intro h
    have hcases := h _ rfl
    rw [List.length_replicate] at hcases
    rcases hcases with hneg | ⟨hle, _⟩
    · exact absurd hneg (by decide)
    · omega
  exact ⟨fun h => hnot ((getComplete_iff 5 rfl).mp h rfl),
    fun h => hnot ((putComplete_iff 5 rfl).mp h)⟩

end NetLabs.Ftp
