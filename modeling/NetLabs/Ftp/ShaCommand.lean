import NetLabs.Ftp.Listing
import NetLabs.Lib.Shell

/-!
# The command line of `do_sha`

`do_sha` of the server prints the canonical path of the file behind `sha256sum ` and hands
the line to the shell.  It does not quote the path, so that the shell reads it once more.

`hashesNamedFile_iff` says for which paths the line is still `sha256sum` of that path.
-/

namespace NetLabs.Ftp

open Lib Shell

/-- `do_sha` has the shell run `sha256sum` on the path `p`, and nothing else. -/
structure HashesNamedFile (g : Globbing) (os : Os) (fd : Int) (args : Path) (s : Server)
    (p : Path) : Prop where
  /-- The shell reads one command with one argument. -/
  command : g.simpleCommand (Server.shaCommand p) = some [literal "sha256sum", p]
  /-- It is given no other line. -/
  only : ∀ popen : Path → List UInt8 → Option (List UInt8),
    popen s.cwd (Server.shaCommand p) = os.popen s.cwd (Server.shaCommand p) →
    Server.doSha { os with popen := popen } fd args s = Server.doSha os fd args s
  /-- The output of this line, unless it fills the buffer, is what the client shows. -/
  shown : ∀ (request output : List UInt8),
    os.popen s.cwd (Server.shaCommand p) = some output → 0 ∉ output → output.length < maxbuf →
    (Client.doSha true request).sent.meet (Server.doSha os fd args s) =
      (.done ⟨0, none, output⟩, .done (0, s))
  /-- The line and its terminator are written inside the buffer. -/
  fits : (Server.shaCommand p).length + 1 ≤ maxbuf

/-- No other line matters to `do_sha`. -/
theorem doSha_popen {os : Os} {fd : Int} {args p : Path} {s : Server}
    (hcanonical : os.fsCanonical s.cwd args = some p)
    {popen : Path → List UInt8 → Option (List UInt8)}
    (h : popen s.cwd (Server.shaCommand p) = os.popen s.cwd (Server.shaCommand p)) :
    Server.doSha { os with popen := popen } fd args s = Server.doSha os fd args s := by
  simp only [Server.doSha, hcanonical, h]

theorem meet_doSha {os : Os} {fd : Int} {args p : Path} {s : Server}
    (hexists : os.fsExists s.cwd args = some true)
    (hcanonical : os.fsCanonical s.cwd args = some p)
    (hline : (Server.shaCommand p).length < maxbuf) {output : List UInt8}
    (hpopen : os.popen s.cwd (Server.shaCommand p) = some output) (hplain : 0 ∉ output)
    (hshort : output.length < maxbuf) (request : List UInt8) :
    (Client.doSha true request).sent.meet (Server.doSha os fd args s) =
      (.done ⟨0, none, output⟩, .done (0, s)) := by
  have hline' : ¬ maxbuf ≤ (Server.shaCommand p).length := by omega
  have hread : min output.length maxbuf = output.length := by omega
  have hplace : ¬ output.length = maxbuf := by omega
  simp [Client.doSha, Server.doSha, hexists, hcanonical, hline', hpopen, hread, hplace,
    cString_append_zero hplain]

theorem shaCommand_length (p : Path) : (Server.shaCommand p).length = p.length + 10 := by
  rw [Server.shaCommand, List.length_append, Nat.add_comm]
  rfl

/-- `sha256sum` and the slash that a canonical path starts with are not special. -/
theorem simpleCommand_shaCommand (g : Globbing) (rest : Path) :
    g.simpleCommand (Server.shaCommand (47 :: rest)) = some [literal "sha256sum", 47 :: rest] ↔
      g.Literal (47 :: rest) := by
  have hname : literal "sha256sum" = 115 :: (literal "sha256sum").tail := rfl
  have hline : Server.shaCommand (47 :: rest) =
      (115 :: (literal "sha256sum").tail) ++ 32 :: (47 :: rest) := rfl
  have hplain : ∀ b ∈ 115 :: (literal "sha256sum").tail,
      isOrdinary b = true ∧ isPattern b = false := by decide +kernel
  rw [hline, hname]
  exact g.simpleCommand_iff hplain (by decide) (by decide) (by decide) (by decide) (by decide)

/-- **A `sha256` request hashes exactly the named file** when its canonical path is
literal for the shell and the command line fits the buffer, and only then. -/
theorem hashesNamedFile_iff (g : Globbing) {os : Os} (fd : Int) {args p : Path} {s : Server}
    (hexists : os.fsExists s.cwd args = some true)
    (hcanonical : os.fsCanonical s.cwd args = some p) (habsolute : p.head? = some 47) :
    HashesNamedFile g os fd args s p ↔ g.Literal p ∧ p.length + 11 ≤ maxbuf := by
  obtain ⟨rest, rfl⟩ := List.head?_eq_some_iff.mp habsolute
  have hlength := shaCommand_length (47 :: rest)
  constructor
  · intro h
    have hfits := h.fits
    exact ⟨(simpleCommand_shaCommand g rest).mp h.command, by omega⟩
  · intro ⟨hliteral, hfits⟩
    refine ⟨(simpleCommand_shaCommand g rest).mpr hliteral, ?_, ?_, by omega⟩
    · intro popen hpopen
      exact doSha_popen hcanonical hpopen
    · intro request output hpopen hplain hshort
      exact meet_doSha hexists hcanonical (by omega) hpopen hplain hshort request

/-! ## A file with a semicolon in its name -/

/-- Pathname expansion where no pattern matches anything. -/
def noMatch : Globbing := ⟨fun w => [w.bytes], fun _ => List.cons_ne_nil _ _⟩

theorem hashesNamedFile_plain :
    HashesNamedFile noMatch (filesOs []) 5 (literal "/srv/a") openedServer (literal "/srv/a") :=
  (hashesNamedFile_iff noMatch 5 rfl rfl rfl).mpr ⟨.inl (by decide +kernel), by decide⟩

/-- A request for `/srv/a;id` makes the server run `id`. -/
theorem semicolon_runs_id :
    (filesOs []).fsExists openedServer.cwd (literal "/srv/a;id") = some true ∧
      (filesOs []).fsCanonical openedServer.cwd (literal "/srv/a;id") =
        some (literal "/srv/a;id") ∧
      tokens (Server.shaCommand (literal "/srv/a;id")) =
        [.word (unquoted (literal "sha256sum")), .word (unquoted (literal "/srv/a")),
          .operator 59, .word (unquoted (literal "id"))] ∧
      ¬ HashesNamedFile noMatch (filesOs []) 5 (literal "/srv/a;id") openedServer
        (literal "/srv/a;id") := by
  have htokens : tokens (Server.shaCommand (literal "/srv/a;id")) =
      [.word (unquoted (literal "sha256sum")), .word (unquoted (literal "/srv/a")),
        .operator 59, .word (unquoted (literal "id"))] := by decide
  refine ⟨rfl, rfl, htokens, fun h => ?_⟩
  have hcommand := h.command
  rw [Globbing.simpleCommand, htokens] at hcommand
  cases hcommand

end NetLabs.Ftp
