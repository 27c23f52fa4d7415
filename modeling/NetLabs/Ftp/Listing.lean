import NetLabs.Ftp.Complete
import NetLabs.Ftp.Transport

/-!
# Listings

`do_ls` of the server reads up to `MAXBUF` bytes of the output of `ls` into a buffer of
that size and puts a terminator behind them.  It posts the bytes with the terminator.

`deliversListing_iff` says which outputs get to the screen of the client whole.  Those
that fill the buffer do not: the terminator has no place there.
-/

namespace NetLabs.Ftp

open Lib Relation

/-- `recv_post` reads exactly this post, wherever the bytes are cut. -/
def Post.Arrives (p : Post) : Prop :=
  ∀ c : Calls, c.Transfers → ∀ old rest calls, ∃ calls',
    recvPost c old ⟨p.bytes ++ rest, calls⟩ =
      some ((p.payload.length : Int), p, ⟨rest, calls'⟩)

/-- The output of `ls` gets to the client whole. -/
structure DeliversListing (os : Os) (fd : Int) (args : Path) (s : Server)
    (output : List UInt8) : Prop where
  /-- The server writes the terminator inside its buffer. -/
  terminated : (Server.doLs os fd args s).Ends fun _ => True
  /-- The buffer of the client holds the payload. -/
  posted : (Server.doLs os fd args s).Sends fun p => p.Fits ∧ p.Arrives
  /-- Any call on the connection may fail: a listing that is shown is the output. -/
  shown : ∀ u, ReflTransGen FaultyStep
      ⟨(Client.doLs true).sent, Server.doLs os fd args s, [], []⟩ u →
    ∀ r, u.left = .done r → r.code = 0 → r.shown = output
  /-- It is shown when no call fails. -/
  delivered : (Client.doLs true).sent.meet (Server.doLs os fd args s) =
    (.done ⟨0, none, output⟩, .done (0, s))

theorem Post.Fits.arrives {p : Post} (h : p.Fits) : p.Arrives :=
  fun _ hc old rest calls => recvPost_eq hc h old rest calls

/-- A terminator behind a text without one. -/
theorem cString_append_zero {text : List UInt8} (h : 0 ∉ text) : cString (text ++ [0]) = text := by
  rw [cString_append_terminated, cString_eq_self h]

section Listing

variable {os : Os} (fd : Int) (args : Path) {s : Server} {output : List UInt8}
  (hls : os.popen s.cwd (literal "ls") = some output)

include hls

/-- The terminator of an output that fills the buffer goes behind it. -/
theorem doLs_halts (hlong : maxbuf ≤ output.length) : Server.doLs os fd args s = .halt := by
  have hfull : min output.length maxbuf = maxbuf := by omega
  simp only [Server.doLs, hls, hfull, if_true]
  rfl

/-- The one post of a shorter output. -/
theorem doLs_posts (hshort : output.length < maxbuf) :
    Server.doLs os fd args s =
      .send ⟨listReply, 0, output ++ [0]⟩ fun ok => .done (if ok then 0 else -1, s) := by
  have hread : min output.length maxbuf = output.length := by omega
  have hplace : ¬ output.length = maxbuf := by omega
  simp only [Server.doLs, hls, hread, if_neg hplace, List.take_length]
  refine congrArg _ (funext fun ok => ?_)
  cases ok with
  | false => rfl
  | true => rfl

theorem doLs_ends_iff :
    ((Server.doLs os fd args s).Ends fun _ => True) ↔ output.length < maxbuf := by
  constructor
  · intro hends
    by_contra hlong
    rw [doLs_halts fd args hls (by omega)] at hends
    exact Proc.not_ends_halt hends
  · intro hshort
    rw [doLs_posts fd args hls hshort]
    exact .send fun _ => .done trivial

/-- All that `do_ls` of the server sends is the output with its terminator. -/
theorem doLs_server_keeps (hshort : output.length < maxbuf) :
    (Server.doLs os fd args s).Keeps (fun _ => True)
      (fun m => m = ⟨listReply, 0, output ++ [0]⟩) fun _ => True := by
  rw [doLs_posts fd args hls hshort]
  exact .send rfl fun _ => .done trivial

end Listing

/-- A `do_ls` of the client that returns 0 shows what it has received. -/
theorem doLs_client_keeps {R : Post → Prop} :
    (Client.doLs true).sent.Keeps R (fun _ => True) fun r =>
      r.code = 0 → ∃ reply, R reply ∧ r.shown = cString reply.payload := by
  refine .recv (.done nofun) fun reply hreply => ?_
  show Proc.Keeps _ _ _ (if reply.type ≠ listReply then _ else _)
  by_cases htype : reply.type ≠ listReply
  · rw [if_pos htype]
    exact .done nofun
  · rw [if_neg htype]
    exact .done fun _ => ⟨reply, hreply, rfl⟩

/-- **A listing is delivered whole** exactly when it and its terminator fit the buffer. -/
theorem deliversListing_iff {os : Os} (fd : Int) (args : Path) {s : Server}
    {output : List UInt8} (hls : os.popen s.cwd (literal "ls") = some output)
    (hplain : 0 ∉ output) :
    DeliversListing os fd args s output ↔ output.length < maxbuf := by
  constructor
  · intro h
    exact (doLs_ends_iff fd args hls).mp h.terminated
  · intro hshort
    refine ⟨(doLs_ends_iff fd args hls).mpr hshort, ?_, ?_, ?_⟩
    · exact (server_doLs_sends os fd args s).mono fun p hfits => ⟨hfits, hfits.arrives⟩
    · intro u hrun r hr hcode
      have hkept := kept_of_reaches hrun
        ⟨doLs_client_keeps, doLs_server_keeps fd args hls hshort, nofun, nofun⟩
      have ⟨reply, hreply, hshown⟩ := hkept.left_done hr hcode
      rw [hshown, hreply]
      exact cString_append_zero hplain
    · rw [doLs_posts fd args hls hshort]
      simp [Client.doLs, cString_append_zero hplain]

/-! ## A directory with 8192 long names -/

/-- A server on which `ls` has this output. -/
def listingOs (output : List UInt8) : Os := { plainOs with popen := fun _ _ => some output }

/-- Two files. -/
theorem deliversListing_two :
    DeliversListing (listingOs (literal "a\nb\n")) 5 [] openedServer (literal "a\nb\n") :=
  (deliversListing_iff 5 [] rfl (by decide)).mpr (by decide)

/-- The name of file `i`: four letters that write its number, and 251 more. -/
def longName (i : Nat) : List UInt8 :=
  [3, 2, 1, 0].map (fun k => UInt8.ofNat (97 + i / 16 ^ k % 16)) ++ List.replicate 251 97

/-- The output of `ls` for the first `n` of these files. -/
def longListing (n : Nat) : List UInt8 := (List.range n).flatMap fun i => longName i ++ [10]

theorem longName_length (i : Nat) : (longName i).length = 255 := by
  rw [longName, List.length_append, List.length_map, List.length_replicate]
  rfl

theorem longListing_length (n : Nat) : (longListing n).length = 256 * n := by
  induction n with
  | zero => rfl
  | succ n ih =>
    rw [longListing, List.range_succ, List.flatMap_append, List.length_append]
    show (longListing n).length + _ = _
    rw [ih, List.flatMap_singleton, List.length_append, longName_length, List.length_singleton]
    omega

theorem longListing_plain (n : Nat) : 0 ∉ longListing n := by
  intro hmem
  obtain ⟨i, _, hline⟩ := List.mem_flatMap.mp hmem
  rcases List.mem_append.mp hline with hname | hend
  · rcases List.mem_append.mp hname with hnumber | hrest
    · obtain ⟨k, _, hk⟩ := List.mem_map.mp hnumber
      have hvalue := congrArg UInt8.toNat hk
      rw [UInt8.toNat_ofNat'] at hvalue
      have hdigit : i / 16 ^ k % 16 < 16 := Nat.mod_lt _ (by decide)
      have hzero : (0 : UInt8).toNat = 0 := rfl
      omega
    · exact absurd (List.eq_of_mem_replicate hrest) (by decide)
  · exact absurd (List.mem_singleton.mp hend) (by decide)

/-- The listing of 8192 files whose names have 255 bytes fills the buffer. -/
theorem longListing_overflows :
    (listingOs (longListing 8192)).popen openedServer.cwd (literal "ls") =
        some (longListing 8192) ∧
      0 ∉ longListing 8192 ∧
      ¬ DeliversListing (listingOs (longListing 8192)) 5 [] openedServer (longListing 8192) := by
  refine ⟨rfl, longListing_plain _, fun h => ?_⟩
  have hshort := (doLs_ends_iff 5 [] rfl).mp h.terminated
  rw [longListing_length] at hshort
  exact absurd hshort (by decide)

end NetLabs.Ftp
