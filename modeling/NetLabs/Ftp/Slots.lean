import NetLabs.Ftp.InStep
import NetLabs.Ftp.Release
import NetLabs.Lib.Descriptors

/-!
# The slots of the connections

`cwds` has `MAXCONN` entries, and a connection finds its own by subtracting 2 from
its descriptor.  `accept` takes whatever descriptor the system hands out, and
nothing compares it with the table.

* `Loop.live` are the open connections, `Loop.openFds` the numbers that the system
  cannot hand out.
* `OwnSlots` is what the table is meant for.
* `ownSlots_of_reachable`: it holds as long as no connection is accepted while 61
  are open, and no longer.
-/

namespace NetLabs.Ftp

open Lib

def maxConn : Nat := 64

/-- The connections that the table has entries for, `MAXCONN - 3`: 0 to 2 are the
standard streams, 3 and 4 the listening socket and the epoll descriptor, and the table
starts at 2. -/
def seats : Nat := 61

namespace Loop

/-- The open connections. -/
def live (l : Loop) : Set ℤ := {fd | l.conns fd ≠ none}

/-- The open descriptors of the process. -/
def openFds (l : Loop) : Set ℤ := Set.Ico 0 5 ∪ l.live

/-- A new connection gets the lowest number that is free. -/
def LowestFirst (l : Loop) : Event → Prop
  | .accept fd _ => IsLowestFree l.openFds fd
  | _ => True

/-- A connection is accepted while fewer than `n` are open. -/
def HasRoom (n : Nat) (l : Loop) : Event → Prop
  | .accept _ _ => l.live.ncard < n
  | _ => True

/-- The descriptor has an entry in the table. -/
def HasSlot (fd : Int) : Prop := 0 ≤ fd2ind fd ∧ fd2ind fd < maxConn

/-- Every descriptor that is dispatched has a slot, two connections have two, and
there is no connection without one. -/
structure OwnSlots (l : Loop) : Prop where
  dispatched : ∀ fd req os l', LoopStep 3 l (.request fd req os) l' → HasSlot fd
  distinct : ∀ fd ∈ l.live, ∀ fd' ∈ l.live, fd2ind fd = fd2ind fd' → fd = fd'
  served : ∀ fd ∈ l.live, HasSlot fd

/-- The connections are behind the descriptors of the server and have slots. -/
def Seated (l : Loop) : Prop := l.live ⊆ Set.Ico 5 66

variable {listenfd : Int} {l l' : Loop} {e : Event}

/-! ## Open connections -/

theorem live_setConn {fd : Int} {c c' : Conn} (hconn : l.conns fd = some c) :
    (l.setConn fd (some c')).live = l.live := by
  ext x
  exact not_congr (setConn_none_iff hconn)

/-- Only `accept` opens a connection. -/
theorem live_subset_of_step (hstep : LoopStep listenfd l e l')
    (haccept : ∀ fd added, e ≠ .accept fd added) : l'.live ⊆ l.live := by
  cases hstep with
  | connect | pending | poll | acceptFailed | sendFailed | overrun | badRequest | halt | sigpipe =>
    exact subset_rfl
  | peer hacts hconn => exact (live_setConn hconn).subset
  | lost hphase hne hconn => exact (live_setConn hconn).subset
  | request hphase hne hconn => exact (live_setConn hconn).subset
  | dropped os hphase hne hconn => exact (live_setConn hconn).subset
  | send hphase hconn => exact (live_setConn hconn).subset
  | receive hphase hconn => exact (live_setConn hconn).subset
  | receiveFailed hphase hconn => exact (live_setConn hconn).subset
  | @accept fd added => exact absurd rfl (haccept fd added)
  | @finish fd req os code s todo hphase =>
    intro x hx hnone
    apply hx
    show (if fd ∉ s.registered ∧ os.close fd = true then Function.update l.conns fd none
      else l.conns) x = none
    by_cases hsame : x = fd
    · rw [hsame] at hnone ⊢
      split
      · exact Function.update_self _ _ _
      · exact hnone
    · rw [conns_finish_other hsame]
      exact hnone

theorem live_accept {fd : Int} {added : Bool} (hstep : LoopStep listenfd l (.accept fd added) l') :
    l'.live = insert fd l.live := by
  cases hstep with
  | accept hphase hbacklog hfresh hne =>
    ext x
    by_cases hx : x = fd
    · simp [live, hx]
    · simp [live, hx]

/-! ## The next descriptor -/

theorem mem_Ico_iff_hasSlot {fd : Int} (hfd : 2 ≤ fd) : fd < 66 ↔ HasSlot fd := by
  simp only [HasSlot, fd2ind, maxConn]
  omega

theorem Seated.ncard_openFds (h : l.Seated) : l.openFds.ncard = 5 + l.live.ncard := by
  have hfinite : l.live.Finite := (Set.finite_Ico 5 66).subset h
  have hdisjoint : Disjoint (Set.Ico 0 5) l.live := by
    refine Set.disjoint_left.mpr fun x hx hlive => ?_
    have hlow := (h hlive).1
    have hhigh := hx.2
    omega
  have hcard : (Set.Ico (0 : ℤ) 5).ncard = 5 := ncard_Ico 0 5
  rw [openFds, Set.ncard_union_eq hdisjoint (Set.finite_Ico 0 5) hfinite, hcard]

theorem Seated.openFds_subset (h : l.Seated) : l.openFds ⊆ Set.Ico 0 66 := by
  intro x hx
  rcases hx with hx | hx
  · exact ⟨hx.1, lt_trans hx.2 (by decide)⟩
  · exact ⟨le_trans (by decide) (h hx).1, (h hx).2⟩

/-- The descriptors of the server itself are never handed out. -/
theorem five_le {fd : Int} (hfd : IsLowestFree l.openFds fd) : 5 ≤ fd := by
  by_contra hlt
  exact hfd.free (.inl ⟨hfd.nonneg, not_le.mp hlt⟩)

/-- The next descriptor is in the table exactly when there is room. -/
theorem Seated.lt_iff (h : l.Seated) {fd : Int} (hfd : IsLowestFree l.openFds fd) :
    fd < 66 ↔ l.live.ncard < seats := by
  have hlt : fd < (66 : ℕ) ↔ l.openFds.ncard < 66 := hfd.lt_iff h.openFds_subset
  rw [h.ncard_openFds] at hlt
  rw [seats]
  exact hlt.trans (by omega)

/-! ## Runs -/

theorem seated_start {dir : Path} : (start 3 dir).Seated := fun _ hlive => absurd rfl hlive

theorem Seated.step (h : l.Seated) (hlowest : l.LowestFirst e) (hroom : l.HasRoom seats e)
    (hstep : LoopStep 3 l e l') : l'.Seated := by
  by_cases haccept : ∃ fd added, e = .accept fd added
  · have ⟨fd, added, heq⟩ := haccept
    subst heq
    rw [Seated, live_accept hstep]
    refine Set.insert_subset ?_ h
    exact ⟨five_le hlowest, (h.lt_iff hlowest).mpr hroom⟩
  · refine (live_subset_of_step hstep ?_).trans h
    exact fun fd added heq => haccept ⟨fd, added, heq⟩

theorem Seated.ownSlots (h : l.Seated) : l.OwnSlots := by
  have hslot : ∀ fd ∈ l.live, HasSlot fd := by
    intro fd hlive
    have ⟨hlow, hhigh⟩ := h hlive
    exact (mem_Ico_iff_hasSlot (by omega)).mp hhigh
  refine ⟨?_, fun fd _ fd' _ heq => fd2ind_injective heq, hslot⟩
  intro fd req os l' hstep
  cases hstep with
  | request hphase hne hconn =>
    apply hslot
    intro hnone
    rw [hconn] at hnone
    cases hnone

theorem seated_of_reachable {dir : Path} (h : ((eventLoop 3 dir).restrict fun l e =>
    l.LowestFirst e ∧ l.HasRoom seats e).Reachable l) : l.Seated := by
  refine h.invariant ?_ ?_
  · intro l hinit
    rw [show l = start 3 dir from hinit]
    exact seated_start
  · intro l e l' _ hl hstep
    exact hl.step hstep.1.1 hstep.1.2 hstep.2

end Loop

/-- **Every connection has its own slot** in every run in which no connection is
accepted while 61 are open, and after such a run the next connection has one exactly
if there are fewer. -/
theorem ownSlots_of_reachable {dir : Path} {l : Loop}
    (h : ((eventLoop 3 dir).restrict fun l e =>
      l.LowestFirst e ∧ l.HasRoom seats e).Reachable l) :
    l.OwnSlots ∧ ∀ fd added l', l.LowestFirst (.accept fd added) →
      LoopStep 3 l (.accept fd added) l' → (l'.OwnSlots ↔ l.HasRoom seats (.accept fd added)) := by
  have hseated := Loop.seated_of_reachable h
  refine ⟨hseated.ownSlots, fun fd added l' hlowest hstep => ⟨fun hslots => ?_, fun hroom => ?_⟩⟩
  · have hlive : fd ∈ l'.live := by
      rw [Loop.live_accept hstep]
      exact Set.mem_insert _ _
    have hlow := Loop.five_le hlowest
    have hslot := hslots.served fd hlive
    exact (hseated.lt_iff hlowest).mp ((Loop.mem_Ico_iff_hasSlot (by omega)).mpr hslot)
  · exact (hseated.step hlowest hroom hstep).ownSlots

/-! ## Many clients -/

/-- The server in `/srv` when `n` clients are connected and silent. -/
def crowd : Nat → Loop
  | 0 => Loop.start 3 (literal "/srv")
  | n + 1 => ⟨(crowd n).server.register (5 + n),
      Function.update (crowd n).conns (5 + n) (some freshConn), [], .batch []⟩

section Crowd

variable {n : Nat} {x : Int} {c : Conn}

theorem crowd_phase : (crowd n).phase = .batch [] := by
  cases n <;> rfl

theorem crowd_backlog : (crowd n).backlog = [] := by
  cases n <;> rfl

theorem crowd_listens : 3 ∈ (crowd n).server.registered := by
  induction n with
  | zero => exact List.mem_singleton_self 3
  | succ n ih => exact List.mem_cons_of_mem _ ih

theorem crowd_last : (crowd (n + 1)).conns (5 + n) = some freshConn := Function.update_self _ _ _

theorem crowd_quiet (hconn : (crowd n).conns x = some c) : c = freshConn := by
  induction n with
  | zero => cases hconn
  | succ n ih =>
    by_cases hx : x = 5 + n
    · rw [hx, crowd_last] at hconn
      exact (Option.some.inj hconn).symm
    · exact ih ((Function.update_of_ne hx _ _).symm.trans hconn)

theorem crowd_live : (crowd n).live = Set.Ico 5 (5 + (n : ℤ)) := by
  induction n with
  | zero =>
    ext x
    have hstart : x ∉ (crowd 0).live := fun hlive => hlive rfl
    simp [hstart]
  | succ n ih =>
    ext x
    have hprev : x ∈ (crowd n).live ↔ 5 ≤ x ∧ x < 5 + (n : ℤ) := by
      rw [ih]
      rfl
    show Function.update (crowd n).conns (5 + (n : ℤ)) (some freshConn) x ≠ none ↔
      5 ≤ x ∧ x < 5 + ((n + 1 : ℕ) : ℤ)
    by_cases hx : x = 5 + n
    · simp [hx]
    · rw [Function.update_of_ne hx]
      refine hprev.trans ?_
      omega

theorem crowd_next : IsLowestFree (crowd n).openFds (5 + (n : ℤ)) := by
  have hfds : (crowd n).openFds = Set.Ico 0 ((5 + n : ℕ) : ℤ) := by
    ext x
    show x ∈ Set.Ico 0 5 ∨ x ∈ (crowd n).live ↔ _
    rw [crowd_live]
    simp only [Set.mem_Ico]
    omega
  rw [hfds]
  exact isLowestFree_Ico (5 + n)

/-- Nothing is ready but what has just arrived. -/
theorem crowd_not_ready : ¬ (crowd n).Ready 3 x := by
  intro hready
  rw [Loop.Ready, crowd_backlog] at hready
  by_cases hx : x = 3
  · rw [if_pos hx] at hready
    exact hready rfl
  · rw [if_neg hx] at hready
    obtain ⟨c, hconn, hc⟩ := hready
    rw [crowd_quiet hconn] at hc
    simp [freshConn] at hc

/-- With one more client only the listening socket is ready. -/
theorem crowd_polls : Loop.Polls 3 { crowd n with backlog := [freshConn] } [3] := by
  apply Loop.polls_one
  · exact crowd_listens
  · exact Loop.ready_of_backlog (List.cons_ne_nil _ _)
  · intro fd _ hready
    by_contra hne
    apply crowd_not_ready (n := n) (x := fd)
    rw [Loop.Ready, if_neg hne] at hready ⊢
    exact hready

theorem crowd_free : (crowd n).conns (5 + n) = none := by
  by_contra hopen
  have hlive : 5 + (n : ℤ) ∈ (crowd n).live := hopen
  rw [crowd_live] at hlive
  exact lt_irrefl _ hlive.2

/-- While there is room, one client after the other is accepted. -/
theorem crowd_reachable {m : Nat} (hn : n ≤ m) :
    ((eventLoop 3 (literal "/srv")).restrict fun l e =>
      l.LowestFirst e ∧ l.HasRoom m e).Reachable (crowd n) := by
  induction n with
  | zero => exact .init rfl
  | succ n ih =>
    have hcrowd := ih (by omega)
    let asked : Loop := { crowd n with backlog := [freshConn] }
    have hconnect : LoopStep 3 (crowd n) (.connect freshConn) asked := by
      have hstep : LoopStep 3 (crowd n) (.connect freshConn)
          { crowd n with backlog := (crowd n).backlog ++ [freshConn] } := .connect freshConn rfl
      rw [crowd_backlog] at hstep
      exact hstep
    have hpoll : LoopStep 3 asked (.poll [3]) (asked.goto (.batch [3])) :=
      .poll crowd_phase crowd_polls
    have haccept : LoopStep 3 (asked.goto (.batch [3])) (.accept (5 + n) true) (crowd (n + 1)) :=
      .accept rfl rfl crowd_free (by omega)
    have hcard : (crowd n).live.ncard = n := by
      rw [crowd_live]
      exact ncard_Ico 5 n
    have hroom : (crowd n).live.ncard < m := by omega
    have hasked := hcrowd.step (e := Event.connect freshConn) ⟨⟨trivial, trivial⟩, hconnect⟩
    have hpolled := hasked.step (e := Event.poll [3]) ⟨⟨trivial, trivial⟩, hpoll⟩
    exact hpolled.step (e := Event.accept (5 + n) true) ⟨⟨crowd_next, hroom⟩, haccept⟩

end Crowd

/-- Two clients. -/
theorem ownSlots_crowd :
    (crowd 2).OwnSlots ∧ ∀ fd added l', (crowd 2).LowestFirst (.accept fd added) →
      LoopStep 3 (crowd 2) (.accept fd added) l' →
        (l'.OwnSlots ↔ (crowd 2).HasRoom seats (.accept fd added)) :=
  ownSlots_of_reachable (crowd_reachable (show 2 ≤ seats by decide))

/-- The 62nd client gets descriptor 66, whose place is behind the table, and its
`open` is dispatched. -/
theorem crowd_overruns : ∃ l l' : Loop,
    ((eventLoop 3 (literal "/srv")).restrict Loop.LowestFirst).Reachable l ∧
      LoopStep 3 l (.request 66 ⟨openRequest, 0, []⟩ plainOs) l' ∧ fd2ind 66 = maxConn ∧
        ¬ l.OwnSlots := by
  let asking : Conn := ⟨Post.bytes ⟨openRequest, 0, []⟩ ++ [], false, maxbuf, false⟩
  let asked : Loop := (crowd 62).setConn 66 (some asking)
  have hfull : ((eventLoop 3 (literal "/srv")).restrict Loop.LowestFirst).Reachable (crowd 62) :=
    (crowd_reachable le_rfl).restrict_mono fun _ _ he => he.1
  have hconn : (crowd 62).conns 66 = some freshConn := crowd_last (n := 61)
  have hpeer : LoopStep 3 (crowd 62) (.peer 66 (.sends (Post.bytes ⟨openRequest, 0, []⟩ ++ [])))
      asked := .peer (.sends freshConn _ rfl) hconn
  have hready : ∀ fd, asked.Ready 3 fd → fd = 66 := by
    intro fd hready
    by_contra hne
    apply crowd_not_ready (n := 62) (x := fd)
    rw [Loop.Ready, Loop.setConn_other hne] at hready
    exact hready
  have hasking : asked.conns 66 = some asking := Loop.setConn_self
  have hne : (66 : Int) ≠ 3 := by decide
  have hpolls : asked.Polls 3 [66] :=
    Loop.polls_one List.mem_cons_self (Loop.ready_of_conn hne hasking (.inl (by decide)))
      fun fd _ hfd => hready fd hfd
  have hpoll : LoopStep 3 asked (.poll [66]) (asked.goto (.batch [66])) := .poll rfl hpolls
  have hrequest : LoopStep 3 (asked.goto (.batch [66])) (.request 66 ⟨openRequest, 0, []⟩ plainOs)
      _ := .request rfl hne hasking (arrived_bytes (Nat.zero_le _) []) rfl rfl
  have hasked := hfull.step (e := Event.peer 66 _) ⟨trivial, hpeer⟩
  refine ⟨_, _, hasked.step (e := Event.poll [66]) ⟨trivial, hpoll⟩, hrequest, rfl, ?_⟩
  intro hslots
  have hslot := (hslots.dispatched _ _ _ _ hrequest).2
  exact lt_irrefl _ hslot

end NetLabs.Ftp
