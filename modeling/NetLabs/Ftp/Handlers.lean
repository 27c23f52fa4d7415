import NetLabs.Ftp.Server
import NetLabs.Lib.Contract

/-!
# What the handlers return

One contract for each handler of `funcs`, whatever its sends and receives do.
`handler_framed` is what they have in common: a handler stays in its working
directory and touches the table entry and the registration of its own
connection only.
-/

namespace NetLabs.Ftp

open Lib

theorem fd2ind_injective : Function.Injective fd2ind := by
  intro fd fd' h
  simp only [fd2ind] at h
  omega

namespace Server

variable {os : Os} {fd fd' : Int} {args : Path} {s : Server}

/-! ## Updates -/

@[simp] theorem setCwds_self (dir : Path) : (s.setCwds fd dir).cwds (fd2ind fd) = dir := by
  simp [setCwds]

theorem setCwds_other (dir : Path) (h : fd' ≠ fd) :
    (s.setCwds fd dir).cwds (fd2ind fd') = s.cwds (fd2ind fd') := by
  simp [setCwds, Function.update_of_ne (fd2ind_injective.ne h)]

@[simp] theorem mem_unregister {x : Int} :
    x ∈ (s.unregister fd).registered ↔ x ∈ s.registered ∧ x ≠ fd := by
  simp [unregister]

@[simp] theorem unregister_unregister : (s.unregister fd).unregister fd = s.unregister fd := by
  simp [unregister, List.filter_filter]

/-! ## The way back -/

theorem leave_dftPath : (leave os s).dftPath = s.dftPath := by
  rw [leave]
  split <;> rfl

theorem leave_cwds : (leave os s).cwds = s.cwds := by
  rw [leave]
  split <;> rfl

theorem leave_registered : (leave os s).registered = s.registered := by
  rw [leave]
  split <;> rfl

theorem leave_cwd {dir : Path} (h : os.chdir s.cwd s.dftPath = some dir) :
    (leave os s).cwd = dir := by
  rw [leave, h]

/-! ## The handlers -/

theorem doOpen_returns :
    (doOpen fd args s).Returns fun x => x = (-1, s) ∨ x = (0, s.setCwds fd s.dftPath) :=
  .post trivial (.done (.inl rfl)) (.done (.inr rfl))

/-- `do_quit` returns 0 when it has closed the connection. -/
theorem doQuit_returns :
    (doQuit os fd args s).Returns fun x =>
      x = (-1, s) ∨ os.close fd = false ∧ x = (-1, s.unregister fd) ∨
        os.close fd = true ∧ x = (0, (s.unregister fd).setCwds fd (literal "NULL")) := by
  refine .post trivial (.done (.inl rfl)) ?_
  show Proc.Returns _ (if (!os.close fd) = true then _ else _)
  by_cases hclose : os.close fd = true
  · rw [if_neg (by simp [hclose])]
    by_cases hdel : os.epollDel fd = true
    · rw [if_pos hdel, unregister_unregister]
      exact .done (.inr (.inr ⟨hclose, rfl⟩))
    · rw [if_neg hdel]
      exact .done (.inr (.inr ⟨hclose, rfl⟩))
  · rw [if_pos (by simpa using hclose)]
    by_cases hdel : os.epollDel fd = true
    · rw [if_pos hdel]
      exact .done (.inr (.inl ⟨by simpa using hclose, rfl⟩))
    · rw [if_neg hdel]
      exact .done (.inl rfl)

theorem doLs_returns : (doLs os fd args s).Returns fun x => x.2 = s := by
  unfold doLs
  cases os.popen s.cwd (literal "ls") with
  | none => exact .done rfl
  | some output =>
    by_cases hfull : min output.length maxbuf = maxbuf
    · simp only [if_pos hfull]
      exact .halt
    · simp only [if_neg hfull]
      exact .post trivial (.done rfl) (.done rfl)

/-- `do_cd` changes the entry exactly when it returns 0 for an existing path. -/
theorem doCd_returns :
    (doCd os fd args s).Returns fun x =>
      x = (-1, s) ∨ os.fsExists s.cwd args = some false ∧ x = (0, s) ∨
        os.fsExists s.cwd args = some true ∧
          ∃ dir, os.fsCanonical s.cwd args = some dir ∧ x = (0, s.setCwds fd dir) := by
  unfold doCd
  cases os.fsExists s.cwd args with
  | none => exact .halt
  | some found =>
    refine .post trivial (.done (.inl rfl)) ?_
    cases found with
    | false => exact .done (.inr (.inl ⟨rfl, rfl⟩))
    | true =>
      cases hdir : os.fsCanonical s.cwd args with
      | none => exact .halt
      | some dir => exact .done (.inr (.inr ⟨rfl, dir, rfl, rfl⟩))

theorem doGet_returns : (doGet os fd args s).Returns fun x => x.2 = s := by
  unfold doGet
  cases os.fsExists s.cwd args with
  | none => exact .halt
  | some found =>
    refine .post trivial (.done rfl) ?_
    cases found with
    | false => exact .done rfl
    | true =>
      generalize readFile (os.openRead s.cwd args) os.stale maxbuf = read
      show Proc.Returns _ (if read.1 < 0 then _ else _)
      by_cases hsize : read.1 < 0
      · rw [if_pos hsize]
        exact .done rfl
      · rw [if_neg hsize]
        exact .post trivial (.done rfl) (.done rfl)

theorem doPut_returns :
    (doPut os fd args s).Returns fun x => ∃ written, x.2 = { s with written := written } := by
  refine .post trivial (.done ⟨s.written, rfl⟩) (.recv (.done ⟨s.written, rfl⟩) fun data _ => ?_)
  show Proc.Returns _ (if data.type ≠ fileData then _ else _)
  by_cases htype : data.type ≠ fileData
  · rw [if_pos htype]
    exact .done ⟨s.written, rfl⟩
  · rw [if_neg htype]
    cases os.openWrite s.cwd args with
    | none => exact .done ⟨s.written, rfl⟩
    | some file => exact .done ⟨_, rfl⟩

theorem doSha_returns : (doSha os fd args s).Returns fun x => x.2 = s := by
  unfold doSha
  cases os.fsExists s.cwd args with
  | none => exact .halt
  | some found =>
    refine .post trivial (.done rfl) ?_
    cases found with
    | false => exact .done rfl
    | true =>
      cases os.fsCanonical s.cwd args with
      | none => exact .halt
      | some p =>
        by_cases htext : maxbuf ≤ (shaCommand p).length
        · simp only [if_pos htext]
          exact .halt
        · simp only [if_neg htext]
          cases os.popen s.cwd (shaCommand p) with
          | none => exact .done rfl
          | some output =>
            by_cases hfull : min output.length maxbuf = maxbuf
            · simp only [if_pos hfull]
              exact .halt
            · simp only [if_neg hfull]
              exact .post trivial (.done rfl) (.done rfl)

/-! ## Any handler -/

/-- The handler that a request type selects, by its place in the table. -/
theorem handler_cases {type : UInt8} {func : Handler} (h : handler os type = some func) :
    type2ind type = 0 ∧ func = doOpen ∨ type2ind type = 1 ∧ func = doLs os ∨
      type2ind type = 2 ∧ func = doCd os ∨ type2ind type = 3 ∧ func = doGet os ∨
      type2ind type = 4 ∧ func = doPut os ∨ type2ind type = 5 ∧ func = doSha os ∨
      type2ind type = 6 ∧ func = doQuit os := by
  rw [handler] at h
  by_cases hneg : type2ind type < 0
  · rw [if_pos hneg] at h
    cases h
  · rw [if_neg hneg] at h
    have hlt : (type2ind type).toNat < 7 := (List.getElem?_eq_some_iff.mp h).1
    have hcases : type2ind type = 0 ∨ type2ind type = 1 ∨ type2ind type = 2 ∨
        type2ind type = 3 ∨ type2ind type = 4 ∨ type2ind type = 5 ∨ type2ind type = 6 := by
      omega
    rcases hcases with hind | hind | hind | hind | hind | hind | hind <;>
    · rw [hind] at h ⊢
      cases h
      simp

/-- What a handler leaves as it is, and what it may do to the registrations. -/
structure Framed (os : Os) (fd : Int) (s s' : Server) : Prop where
  cwd : s'.cwd = s.cwd
  dftPath : s'.dftPath = s.dftPath
  cwds : ∀ fd', fd' ≠ fd → s'.cwds (fd2ind fd') = s.cwds (fd2ind fd')
  registered : s'.registered = s.registered ∨ s'.registered = (s.unregister fd).registered

theorem Framed.refl : Framed os fd s s := ⟨rfl, rfl, fun _ _ => rfl, .inl rfl⟩

theorem Framed.setCwds {s' : Server} (h : Framed os fd s s') (dir : Path) :
    Framed os fd s (s'.setCwds fd dir) :=
  ⟨h.cwd, h.dftPath, fun fd' hne => (setCwds_other dir hne).trans (h.cwds fd' hne), h.registered⟩

theorem framed_unregister : Framed os fd s (s.unregister fd) :=
  ⟨rfl, rfl, fun _ _ => rfl, .inr rfl⟩

/-- Every handler leaves the other connections alone. -/
theorem handler_framed {type : UInt8} {func : Handler} (h : handler os type = some func) :
    (func fd args s).Returns fun x => Framed os fd s x.2 := by
  rcases handler_cases h with ⟨_, rfl⟩ | ⟨_, rfl⟩ | ⟨_, rfl⟩ | ⟨_, rfl⟩ | ⟨_, rfl⟩ | ⟨_, rfl⟩ |
    ⟨_, rfl⟩
  · refine doOpen_returns.mono fun x hx => ?_
    rcases hx with rfl | rfl
    · exact .refl
    · exact Framed.refl.setCwds _
  · exact doLs_returns.mono fun x hx => hx ▸ .refl
  · refine doCd_returns.mono fun x hx => ?_
    rcases hx with rfl | ⟨_, rfl⟩ | ⟨_, dir, _, rfl⟩
    · exact .refl
    · exact .refl
    · exact Framed.refl.setCwds dir
  · exact doGet_returns.mono fun x hx => hx ▸ .refl
  · refine doPut_returns.mono fun x ⟨written, hx⟩ => ?_
    rw [hx]
    exact ⟨rfl, rfl, fun _ _ => rfl, .inl rfl⟩
  · exact doSha_returns.mono fun x hx => hx ▸ .refl
  · refine doQuit_returns.mono fun x hx => ?_
    rcases hx with rfl | ⟨_, rfl⟩ | ⟨_, rfl⟩
    · exact .refl
    · exact framed_unregister
    · exact framed_unregister.setCwds _

/-- Only `do_quit` takes a descriptor out of the epoll set. -/
theorem handler_registered {type : UInt8} {func : Handler} (h : handler os type = some func)
    (hquit : type2ind type ≠ 6) :
    (func fd args s).Returns fun x => x.2.registered = s.registered := by
  rcases handler_cases h with ⟨_, rfl⟩ | ⟨_, rfl⟩ | ⟨_, rfl⟩ | ⟨_, rfl⟩ | ⟨_, rfl⟩ | ⟨_, rfl⟩ |
    ⟨hind, _⟩
  · refine doOpen_returns.mono fun x hx => ?_
    rcases hx with rfl | rfl <;> rfl
  · exact doLs_returns.mono fun x hx => by rw [hx]
  · refine doCd_returns.mono fun x hx => ?_
    rcases hx with rfl | ⟨_, rfl⟩ | ⟨_, dir, _, rfl⟩ <;> rfl
  · exact doGet_returns.mono fun x hx => by rw [hx]
  · exact doPut_returns.mono fun x ⟨written, hx⟩ => by rw [hx]
  · exact doSha_returns.mono fun x hx => by rw [hx]
  · exact absurd hind hquit

/-- `do_quit` reads nothing from the connection that it closes. -/
theorem doQuit_deaf : (doQuit os fd args s).Deaf := by
  refine .send fun ok => ?_
  cases ok with
  | false => exact .done _
  | true =>
    show Proc.Deaf (if (!os.close fd) = true then _ else _)
    split <;> exact .done _

theorem handler_deaf {type : UInt8} {func : Handler} (h : handler os type = some func)
    (hquit : type2ind type = 6) : (func fd args s).Deaf := by
  rcases handler_cases h with ⟨hind, _⟩ | ⟨hind, _⟩ | ⟨hind, _⟩ | ⟨hind, _⟩ | ⟨hind, _⟩ |
    ⟨hind, _⟩ | ⟨_, rfl⟩
  · omega
  · omega
  · omega
  · omega
  · omega
  · omega
  · exact doQuit_deaf

end Server

end NetLabs.Ftp
