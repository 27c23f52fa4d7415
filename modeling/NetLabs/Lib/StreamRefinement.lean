import NetLabs.Lib.Stream

/-!
# The stream refines the messages

A session whose parties make calls on a stream does what the session of messages
does, in whatever pieces the calls move the elements and in whatever order they are
made.

* `Codec.Stands` says what a party on the stream has become of its program: it may be
  in the middle of a message that the session of messages has already sent, or has not
  yet received.
* `Codec.Refines` joins both parties with the two streams.  `Refines.step` is the
  simulation: a call is one step of the messages or none, and there are only finitely
  many of the latter.
* `Refines.stuck`: where no call is possible no message step is possible either, and
  no message is in the middle.
* `clean_reaches` is the other direction: each step of the messages is a run of calls.
-/

namespace NetLabs.Lib

open Relation

/-- A run of `q` ends when each step of `r` is one of `q`, or none and a measure
falls. -/
theorem acc_of_measured {σ τ : Type*} {r : σ → σ → Prop} {q : τ → τ → Prop}
    {R : Nat → σ → τ → Prop}
    (hstep : ∀ {n s t u}, R n s u → r s t →
      (∃ n' < n, R n' t u) ∨ ∃ n' v, q u v ∧ R n' t v)
    {u : τ} (hu : Acc (fun v u => q u v) u) {n : Nat} {s : σ} (h : R n s u) :
    Acc (fun t s => r s t) s := by
  induction hu generalizing n s with
  | intro u _ ih =>
    induction n using Nat.strongRecOn generalizing s with
    | ind n ihn =>
      refine ⟨s, fun t hst => ?_⟩
      rcases hstep h hst with ⟨n', hlt, ht⟩ | ⟨n', v, huv, ht⟩
      · exact ihn n' hlt ht
      · exact ih v huv ht

namespace Codec

variable {β μ α γ : Type} (cd : Codec β μ)

/-! ## One party -/

/-- What the program `p` has become on the stream, with `queue` as the messages that
it has not received: `got` is what it has read of the first of them, and `rest` what it
has not yet written of a message that counts as sent. -/
inductive Stands (loop : α → Action μ (Proc μ α)) (queue : List μ) :
    Io β α → Proc μ α → List β → List β → Prop
  | writing {x : Io β α} {p : Proc μ α} {rest : List β} (hwrites : Writes (cd.compile p) rest x) :
      Stands loop queue x p [] rest
  | reading {x : Io β α} {p : Proc μ α} {next : Option μ → Proc μ α} {m : μ} {ms : List μ}
      {got rem : List β} (hact : p.act loop = .recv next) (hqueue : queue = m :: ms)
      (hgot : got ++ rem = cd.encode m)
      (hreads : Reads (cd.compile (next (some m))) rem x) (hne : got ≠ []) (hrem : rem ≠ []) :
      Stands loop queue x p got []

variable {cd} {P : μ → Prop} {loop : α → Action μ (Proc μ α)} {queue : List μ} {x x' : Io β α}
  {p : Proc μ α} {got rest inbox inbox' sent pending : List β} {closed : Bool}

theorem Sound.encode_ne (hcd : cd.Sound P) {m : μ} (hm : P m) : cd.encode m ≠ [] := by
  obtain ⟨size, next, hread, _⟩ := hcd.ends
  intro hnil
  have hreads := hcd.reads hm
  rw [hread, hnil] at hreads
  cases hreads with
  | recv hpos hsize => exact absurd hsize (Nat.not_le.mpr hpos)

theorem Sound.stream_ne (hcd : cd.Sound P) (hqueue : ∀ m ∈ queue, P m) (hne : queue ≠ []) :
    cd.stream queue ≠ [] := by
  cases queue with
  | nil => exact absurd rfl hne
  | cons m ms =>
    rw [stream_cons]
    exact List.append_ne_nil_of_left_ne_nil (hcd.encode_ne (hqueue m List.mem_cons_self)) _

/-- A compiled program that sends a message. -/
theorem Sound.party_send (hcd : cd.Sound P) {m : μ} {next : Proc μ α} (hm : P m)
    (hact : p.act loop = .send m next) :
    ∃ w, Writes (cd.compile next) (cd.encode m) w ∧ cd.party loop (cd.compile p) = w.call := by
  cases p with
  | halt => cases hact
  | recv => cases hact
  | done a =>
    have hloop : loop a = .send m next := hact
    exact ⟨_, (hcd.writes hm).bind fun _ => cd.compile next, congrArg cd.calls hloop⟩
  | send m' f =>
    cases hact
    have hwrites : Writes (cd.compile (f true)) (cd.encode m) (cd.compile (.send m f)) :=
      (hcd.writes hm).bind fun ok => cd.compile (f ok)
    exact ⟨_, hwrites, hwrites.act_eq (hcd.encode_ne hm) _⟩

/-- A compiled program that receives. -/
theorem Sound.party_recv (hcd : cd.Sound P) {next : Option μ → Proc μ α}
    (hact : p.act loop = .recv next) :
    cd.party loop (cd.compile p) = (cd.read >>= fun m => cd.compile (next m)).call := by
  obtain ⟨size, f, hread, _⟩ := hcd.ends
  cases p with
  | halt => cases hact
  | send => cases hact
  | done a =>
    have hloop : loop a = .recv next := hact
    exact congrArg cd.calls hloop
  | recv next' =>
    cases hact
    show Io.act _ (cd.read >>= fun m => cd.compile (next m)) = _
    rw [hread]
    rfl

theorem party_idle (hact : p.act loop = .idle) : cd.party loop (cd.compile p) = .idle := by
  cases p with
  | halt | send | recv => cases hact
  | done a =>
    have hloop : loop a = .idle := hact
    exact congrArg cd.calls hloop

theorem party_halted (hact : p.act loop = .halted) : cd.party loop (cd.compile p) = .halted := by
  cases p with
  | halt => rfl
  | send | recv => cases hact
  | done a =>
    have hloop : loop a = .halted := hact
    exact congrArg cd.calls hloop

/-- More messages behind those that wait. -/
theorem Stands.more (h : cd.Stands loop queue x p got rest) (more : List μ) :
    cd.Stands loop (queue ++ more) x p got rest := by
  cases h with
  | writing hwrites => exact .writing hwrites
  | @reading next m ms got rem hact hqueue hgot hreads hne hrem =>
    exact .reading hact (by rw [hqueue, List.cons_append]) hgot hreads hne hrem

/-- What one call of a party does to the messages: nothing, or one step. -/
structure Follows (cd : Codec β μ) (loop : α → Action μ (Proc μ α)) (queue : List μ)
    (p : Proc μ α) (rest inbox pending : List β) (closed : Bool) (x' : Io β α)
    (inbox' sent : List β) (p' : Proc μ α) (queue' msgs : List μ) (got' rest' : List β) :
    Prop where
  step : p' = p ∧ queue' = queue ∧ msgs = [] ∧
      2 * rest'.length + inbox'.length + sent.length < 2 * rest.length + inbox.length ∨
    (p.act loop).perform queue closed = some (p', queue', msgs)
  stands : cd.Stands loop queue' x' p' got' rest'
  inbox : got' ++ inbox' ++ pending = cd.stream queue'
  outbox : sent ++ rest' = rest ++ cd.stream msgs

/-- A call of a party that is reading the first message. -/
theorem follows_reading {next : Option μ → Proc μ α} {m : μ}
    {ms : List μ} {rem : List β} (hact : p.act loop = .recv next)
    (hgot : got ++ rem = cd.encode m) (hreads : Reads (cd.compile (next (some m))) rem x)
    (hrem : rem ≠ []) (hcall : x.call.Performs inbox closed x' inbox' sent)
    (hin : got ++ inbox ++ pending = cd.stream (m :: ms)) (hclosed : closed = true → pending = []) :
    ∃ p' queue' msgs got' rest',
      Follows cd loop (m :: ms) p [] inbox pending closed x' inbox' sent p' queue' msgs got' rest' := by
  have hstream : inbox ++ pending = rem ++ cd.stream ms := by
    rw [stream_cons, ← hgot, List.append_assoc, List.append_assoc] at hin
    exact List.append_cancel_left hin
  obtain ⟨rfl, ⟨now, rem', hnow, hsplit, hrest, hreads'⟩ | ⟨rfl, hended⟩⟩ :=
    hreads.performs hrem hcall hstream
  · subst hsplit hrest
    have hpos := List.length_pos_iff.mpr hnow
    have hleft : inbox' ++ pending = rem' ++ cd.stream ms := by
      rw [List.append_assoc, List.append_assoc] at hstream
      exact List.append_cancel_left hstream
    by_cases hlast : rem' = []
    · subst hlast
      refine ⟨next (some m), ms, [], [], [], .inr ?_, ?_, ?_, rfl⟩
      · rw [hact]
        rfl
      · rw [hreads'.eq_of_nil]
        exact .writing .done
      · rw [List.nil_append, hleft, List.nil_append]
    · refine ⟨p, m :: ms, [], got ++ now, [], .inl ⟨rfl, rfl, rfl, ?_⟩, ?_, ?_, rfl⟩
      · simp only [List.length_append, List.length_nil]
        omega
      · refine .reading hact rfl ?_ hreads' (List.append_ne_nil_of_right_ne_nil _ hnow) hlast
        rw [List.append_assoc, hgot]
      · rw [stream_cons, ← hgot]
        simp only [List.append_assoc, hleft]
  · -- the stream cannot end in the middle of a message
    rw [hclosed hended] at hstream
    exact absurd (List.append_eq_nil_iff.mp hstream.symm).1 hrem

/-- The simulation for one party. -/
theorem Sound.follows (hcd : cd.Sound P) (hsends : (p.act loop).Sends P)
    (hqueue : ∀ m ∈ queue, P m) (h : cd.Stands loop queue x p got rest)
    (hcall : (cd.party loop x).Performs inbox closed x' inbox' sent)
    (hin : got ++ inbox ++ pending = cd.stream queue) (hclosed : closed = true → pending = []) :
    ∃ p' queue' msgs got' rest',
      Follows cd loop queue p rest inbox pending closed x' inbox' sent p' queue' msgs got' rest' := by
  cases h with
  | @reading next m ms got rem hact hmsgs hgot hreads hne hrem =>
    subst hmsgs
    rw [party, hreads.act_eq hrem] at hcall
    exact follows_reading hact hgot hreads hrem hcall hin hclosed
  | writing hwrites =>
    by_cases hrest : rest = []
    · subst hrest
      rw [hwrites.eq_of_nil] at hcall
      cases hact : p.act loop with
      | idle =>
        rw [party_idle hact] at hcall
        cases hcall
      | halted =>
        rw [party_halted hact] at hcall
        cases hcall
      | send m next =>
        rw [hact] at hsends
        obtain ⟨w, hw, hparty⟩ := hcd.party_send hsends.1 hact
        rw [hparty] at hcall
        obtain ⟨rfl, _, rest', hsplit, hw'⟩ := hw.performs (hcd.encode_ne hsends.1) hcall
        refine ⟨next, queue, [m], [], rest', .inr ?_, .writing hw', hin, ?_⟩
        · rw [hact]
          rfl
        · rw [hsplit, List.nil_append, stream_cons, stream_nil, List.append_nil]
      | recv next =>
        rw [hcd.party_recv hact] at hcall
        cases queue with
        | nil =>
          obtain ⟨hinbox, _⟩ := List.append_eq_nil_iff.mp hin
          rw [List.nil_append] at hinbox
          subst hinbox
          obtain ⟨size, f, hread, hend⟩ := hcd.ends
          rw [hread] at hcall
          cases hcall with
          | recv hpos _ hle => exact absurd hle (Nat.not_le.mpr hpos)
          | closed =>
            refine ⟨next none, [], [], [], [], .inr ?_, ?_, hin, rfl⟩
            · rw [hact]
              rfl
            · show cd.Stands loop [] (f 0 [] >>= fun m => cd.compile (next m)) _ _ _
              rw [hend]
              exact .writing .done
        | cons m ms =>
          have hm := hqueue m List.mem_cons_self
          exact follows_reading hact (List.nil_append _) ((hcd.reads hm).bind fun m => cd.compile (next m))
            (hcd.encode_ne hm) hcall hin hclosed
    · rw [party, hwrites.act_eq hrest] at hcall
      obtain ⟨rfl, hsent, rest', rfl, hwrites'⟩ := hwrites.performs hrest hcall
      refine ⟨p, queue, [], [], rest', .inl ⟨rfl, rfl, rfl, ?_⟩, .writing hwrites', hin, ?_⟩
      · have hpos := List.length_pos_iff.mpr hsent
        rw [List.length_append]
        omega
      · rw [stream_nil, List.append_nil]

/-! ## Both parties -/

section Sessions

variable {loopL : α → Action μ (Proc μ α)} {loopR : γ → Action μ (Proc μ γ)}

/-- A session on the stream and the session of messages that it stands for.  `n` bounds
the calls up to the next step of the latter. -/
structure Refines (cd : Codec β μ) (P : μ → Prop) (loopL : α → Action μ (Proc μ α))
    (loopR : γ → Action μ (Proc μ γ)) (n : Nat) (s : Session β (Io β α) (Io β γ))
    (u : Session μ (Proc μ α) (Proc μ γ)) : Prop where
  carries : u.Carries P
  parts : ∃ gotL restL gotR restR,
    cd.Stands loopL u.toLeft s.left u.left gotL restL ∧
      cd.Stands loopR u.toRight s.right u.right gotR restR ∧
      gotL ++ s.toLeft ++ restR = cd.stream u.toLeft ∧
      gotR ++ s.toRight ++ restL = cd.stream u.toRight ∧
      n = 2 * restL.length + 2 * restR.length + s.toLeft.length + s.toRight.length

/-- A call of either party. -/
abbrev Step (cd : Codec β μ) (loopL : α → Action μ (Proc μ α)) (loopR : γ → Action μ (Proc μ γ)) :
    Session β (Io β α) (Io β γ) → Session β (Io β α) (Io β γ) → Prop :=
  CallStep (cd.party loopL) (cd.party loopR)

/-- A step of the messages. -/
abbrev Messages (loopL : α → Action μ (Proc μ α)) (loopR : γ → Action μ (Proc μ γ)) :
    Session μ (Proc μ α) (Proc μ γ) → Session μ (Proc μ α) (Proc μ γ) → Prop :=
  Session.Step (Proc.act loopL) (Proc.act loopR)

theorem Sound.isHalted_compile (hcd : cd.Sound P) (hsends : (p.act loop).Sends P) :
    (cd.party loop (cd.compile p)).isHalted = (p.act loop).isHalted := by
  cases hact : p.act loop with
  | idle => rw [party_idle hact]; rfl
  | halted => rw [party_halted hact]; rfl
  | send m next =>
    rw [hact] at hsends
    obtain ⟨w, hw, hparty⟩ := hcd.party_send hsends.1 hact
    rw [hparty, hw.not_halted (hcd.encode_ne hsends.1)]
    rfl
  | recv next =>
    obtain ⟨size, f, hread, _⟩ := hcd.ends
    rw [hcd.party_recv hact, hread]
    rfl

/-- A party that has ended has nothing left to write, and its program has ended. -/
theorem Sound.halted (hcd : cd.Sound P) (hsends : (p.act loop).Sends P)
    (h : cd.Stands loop queue x p got rest) (hhalted : (cd.party loop x).isHalted = true) :
    (p.act loop).isHalted = true ∧ rest = [] := by
  cases h with
  | reading _ _ _ hreads _ hrem =>
    rw [party, hreads.act_eq hrem, hreads.not_halted hrem] at hhalted
    cases hhalted
  | writing hwrites =>
    by_cases hrest : rest = []
    · subst hrest
      rw [hwrites.eq_of_nil, hcd.isHalted_compile hsends] at hhalted
      exact ⟨hhalted, rfl⟩
    · rw [party, hwrites.act_eq hrest, hwrites.not_halted hrest] at hhalted
      cases hhalted

theorem perform_of_halted {a : Action μ (Proc μ α)} {b b' : Bool}
    {out : Proc μ α × List μ × List μ} (h : a.perform queue b = some out)
    (hb : b = true → b' = true) : a.perform queue b' = some out := by
  cases b with
  | true => rw [hb rfl, h]
  | false =>
    obtain ⟨q, inbox, sent⟩ := out
    have happend := Action.perform_append h [] b'
    rwa [List.append_nil, List.append_nil] at happend

/-- One call is one step of the messages or none, and the number bounds the latter. -/
theorem Refines.step (hcd : cd.Sound P) (hL : ∀ a, (loopL a).Sends P)
    (hR : ∀ b, (loopR b).Sends P) {n : Nat} {s t : Session β (Io β α) (Io β γ)}
    {u : Session μ (Proc μ α) (Proc μ γ)} (h : Refines cd P loopL loopR n s u)
    (hstep : cd.Step loopL loopR s t) :
    (∃ n' < n, Refines cd P loopL loopR n' t u) ∨
      ∃ n' v, Messages loopL loopR u v ∧ Refines cd P loopL loopR n' t v := by
  obtain ⟨gotL, restL, gotR, restR, hleft, hright, htoLeft, htoRight, rfl⟩ := h.parts
  have hsendsL := h.carries.left.act hL
  have hsendsR := h.carries.right.act hR
  cases hstep with
  | @left x inbox sent hcall =>
    have hend := hcd.halted hsendsR hright
    obtain ⟨p', queue', msgs, got', rest', hf⟩ := hcd.follows hsendsL h.carries.toLeft hleft hcall
      htoLeft fun hclosed => (hend hclosed).2
    have hout : gotR ++ (s.toRight ++ sent) ++ rest' = cd.stream (u.toRight ++ msgs) := by
      rw [stream_append, ← htoRight]
      simp only [List.append_assoc, hf.outbox]
    rcases hf.step with ⟨rfl, rfl, rfl, hless⟩ | hperform
    · refine .inl ⟨_, ?_, h.carries, got', rest', gotR, restR, hf.stands, hright, hf.inbox, ?_, rfl⟩
      · simp only [List.length_append]
        omega
      · rwa [List.append_nil] at hout
    · have hmessage : Messages loopL loopR u ⟨p', u.right, queue', u.toRight ++ msgs⟩ :=
        .left (perform_of_halted hperform fun hclosed => (hend hclosed).1)
      exact .inr ⟨_, _, hmessage, step_carries hL hR hmessage h.carries, got', rest', gotR, restR,
        hf.stands, hright.more msgs, hf.inbox, hout, rfl⟩
  | @right y inbox sent hcall =>
    have hend := hcd.halted hsendsL hleft
    obtain ⟨p', queue', msgs, got', rest', hf⟩ := hcd.follows hsendsR h.carries.toRight hright hcall
      htoRight fun hclosed => (hend hclosed).2
    have hout : gotL ++ (s.toLeft ++ sent) ++ rest' = cd.stream (u.toLeft ++ msgs) := by
      rw [stream_append, ← htoLeft]
      simp only [List.append_assoc, hf.outbox]
    rcases hf.step with ⟨rfl, rfl, rfl, hless⟩ | hperform
    · refine .inl ⟨_, ?_, h.carries, gotL, restL, got', rest', hleft, hf.stands, ?_, hf.inbox, rfl⟩
      · simp only [List.length_append]
        omega
      · rwa [List.append_nil] at hout
    · have hmessage : Messages loopL loopR u ⟨u.left, p', u.toLeft ++ msgs, queue'⟩ :=
        .right (perform_of_halted hperform fun hclosed => (hend hclosed).1)
      exact .inr ⟨_, _, hmessage, step_carries hL hR hmessage h.carries, gotL, restL, got', rest',
        hleft.more msgs, hf.stands, hout, hf.inbox, rfl⟩

/-! ## Where no call is possible -/

/-- A party that cannot make a call has nothing left to write. -/
theorem Stands.rest_eq_nil (h : cd.Stands loop queue x p got rest)
    (hstuck : ∀ x' inbox' sent, ¬ (cd.party loop x).Performs inbox closed x' inbox' sent) :
    rest = [] := by
  cases h with
  | reading => rfl
  | writing hwrites =>
    by_cases hrest : rest = []
    · exact hrest
    · obtain ⟨x', inbox', sent, hcall⟩ := hwrites.enabled hrest inbox closed
      rw [← hwrites.act_eq hrest] at hcall
      exact absurd hcall (hstuck x' inbox' sent)

/-- Once everything has been written, a party that cannot make a call is between two
messages, and there is no message for it. -/
theorem Sound.stuck (hcd : cd.Sound P) (hsends : (p.act loop).Sends P)
    (hqueue : ∀ m ∈ queue, P m) (h : cd.Stands loop queue x p got [])
    (hin : got ++ inbox = cd.stream queue)
    (hstuck : ∀ x' inbox' sent, ¬ (cd.party loop x).Performs inbox closed x' inbox' sent) :
    got = [] ∧ x = cd.compile p ∧ (p.act loop).perform queue closed = none := by
  cases h with
  | @reading next m ms got rem hact hmsgs hgot hreads hne hrem =>
    have hinbox : inbox ≠ [] := by
      rintro rfl
      rw [hmsgs, stream_cons, ← hgot, List.append_nil, List.append_assoc] at hin
      have hnil := List.append_right_eq_self.mp hin.symm
      exact hrem (List.append_eq_nil_iff.mp hnil).1
    obtain ⟨x', inbox', sent, hcall⟩ := hreads.enabled hrem hinbox closed
    rw [← hreads.act_eq hrem] at hcall
    exact absurd hcall (hstuck x' inbox' sent)
  | writing hwrites =>
    have hclean := hwrites.eq_of_nil
    subst hclean
    refine ⟨rfl, rfl, ?_⟩
    cases hact : p.act loop with
    | idle => rfl
    | halted => rfl
    | send m next =>
      rw [hact] at hsends
      obtain ⟨w, hw, hparty⟩ := hcd.party_send hsends.1 hact
      obtain ⟨x', inbox', sent, hcall⟩ := hw.enabled (hcd.encode_ne hsends.1) inbox closed
      rw [← hparty] at hcall
      exact absurd hcall (hstuck x' inbox' sent)
    | recv next =>
      cases queue with
      | nil =>
        rw [List.nil_append] at hin
        subst hin
        cases closed with
        | false => rfl
        | true =>
          obtain ⟨size, f, hread, _⟩ := hcd.ends
          rw [hcd.party_recv hact, hread] at hstuck
          exact absurd .closed (hstuck _ _ _)
      | cons m ms =>
        have hm := hqueue m List.mem_cons_self
        have hinbox : inbox ≠ [] := by
          rintro rfl
          exact hcd.stream_ne hqueue (List.cons_ne_nil m ms) hin.symm
        have hreads := (hcd.reads hm).bind fun m => cd.compile (next m)
        obtain ⟨x', inbox', sent, hcall⟩ := hreads.enabled (hcd.encode_ne hm) hinbox closed
        rw [← hcd.party_recv hact] at hcall
        exact absurd hcall (hstuck x' inbox' sent)

/-- Where no call is possible, no step of the messages is, and both parties are between
two messages. -/
theorem Refines.stuck (hcd : cd.Sound P) (hL : ∀ a, (loopL a).Sends P)
    (hR : ∀ b, (loopR b).Sends P) {n : Nat} {s : Session β (Io β α) (Io β γ)}
    {u : Session μ (Proc μ α) (Proc μ γ)} (h : Refines cd P loopL loopR n s u)
    (hstuck : Stuck (cd.Step loopL loopR) s) :
    Stuck (Messages loopL loopR) u ∧ s = cd.clean u := by
  obtain ⟨gotL, restL, gotR, restR, hleft, hright, htoLeft, htoRight, _⟩ := h.parts
  have hsendsL := h.carries.left.act hL
  have hsendsR := h.carries.right.act hR
  have hstuckL : ∀ x inbox sent, ¬ (cd.party loopL s.left).Performs s.toLeft
      (cd.party loopR s.right).isHalted x inbox sent := fun _ _ _ hcall => hstuck _ (.left hcall)
  have hstuckR : ∀ y inbox sent, ¬ (cd.party loopR s.right).Performs s.toRight
      (cd.party loopL s.left).isHalted y inbox sent := fun _ _ _ hcall => hstuck _ (.right hcall)
  have hrestL := hleft.rest_eq_nil hstuckL
  have hrestR := hright.rest_eq_nil hstuckR
  subst hrestL hrestR
  rw [List.append_nil] at htoLeft htoRight
  obtain ⟨rfl, hcleanL, hnoneL⟩ := hcd.stuck hsendsL h.carries.toLeft hleft htoLeft hstuckL
  obtain ⟨rfl, hcleanR, hnoneR⟩ := hcd.stuck hsendsR h.carries.toRight hright htoRight hstuckR
  rw [hcleanR, hcd.isHalted_compile hsendsR] at hnoneL
  rw [hcleanL, hcd.isHalted_compile hsendsL] at hnoneR
  refine ⟨Session.stuck_of_perform hnoneL hnoneR, ?_⟩
  rw [clean, ← hcleanL, ← hcleanR, ← htoLeft, ← htoRight]
  rfl

/-! ## The other direction -/

/-- A step of the messages is a run of calls. -/
theorem Sound.runs (hcd : cd.Sound P) (hsends : (p.act loop).Sends P) (hqueue : ∀ m ∈ queue, P m)
    {p' : Proc μ α} {queue' msgs : List μ}
    (hperform : (p.act loop).perform queue closed = some (p', queue', msgs)) :
    Call.Runs (cd.party loop) closed (cd.compile p) (cd.stream queue) (cd.compile p')
      (cd.stream queue') (cd.stream msgs) := by
  cases hact : p.act loop with
  | idle | halted =>
    rw [hact] at hperform
    cases hperform
  | send m next =>
    rw [hact] at hperform hsends
    cases hperform
    obtain ⟨w, hw, hparty⟩ := hcd.party_send hsends.1 hact
    have hruns := hw.runs (hcd.encode_ne hsends.1) hparty (cd.stream queue) closed
    rwa [stream_cons, stream_nil, List.append_nil]
  | recv next =>
    rw [hact] at hperform
    cases queue with
    | cons m ms =>
      cases hperform
      have hm := hqueue m List.mem_cons_self
      have hreads := (hcd.reads hm).bind fun m => cd.compile (next m)
      exact hreads.runs (hcd.encode_ne hm) (hcd.party_recv hact) (cd.stream queue') closed
    | nil =>
      cases closed with
      | false => cases hperform
      | true =>
        cases hperform
        obtain ⟨size, f, hread, hend⟩ := hcd.ends
        have hparty := hcd.party_recv hact
        rw [hread] at hparty
        have hcall : (cd.party loop (cd.compile p)).Performs [] true
            (f 0 [] >>= fun m => cd.compile (next m)) [] [] := hparty ▸ .closed
        rw [hend] at hcall
        exact .single hcall

/-- Where the messages cannot go on there is no call either. -/
theorem Sound.not_performs (hcd : cd.Sound P)
    (hperform : (p.act loop).perform queue closed = none) :
    ¬ (cd.party loop (cd.compile p)).Performs (cd.stream queue) closed x' inbox' sent := by
  intro hcall
  cases hact : p.act loop with
  | idle =>
    rw [party_idle hact] at hcall
    cases hcall
  | halted =>
    rw [party_halted hact] at hcall
    cases hcall
  | send m next =>
    rw [hact] at hperform
    cases hperform
  | recv next =>
    rw [hact] at hperform
    cases queue with
    | cons m ms => cases hperform
    | nil =>
      obtain ⟨size, f, hread, _⟩ := hcd.ends
      rw [hcd.party_recv hact, hread] at hcall
      cases hcall with
      | recv hpos _ hle => exact absurd hle (Nat.not_le.mpr hpos)
      | closed => cases hperform

variable {u v : Session μ (Proc μ α) (Proc μ γ)}

/-- Each step of the messages is a run of calls. -/
theorem Sound.clean_reaches (hcd : cd.Sound P) (hL : ∀ a, (loopL a).Sends P)
    (hR : ∀ b, (loopR b).Sends P) (hu : u.Carries P) (h : Messages loopL loopR u v) :
    TransGen (cd.Step loopL loopR) (cd.clean u) (cd.clean v) := by
  have hsendsL := hu.left.act hL
  have hsendsR := hu.right.act hR
  cases h with
  | left hperform =>
    rw [← hcd.isHalted_compile hsendsR] at hperform
    have hruns := (hcd.runs hsendsL hu.toLeft hperform).left (cd.stream u.toRight)
    simpa only [clean, stream_append] using hruns
  | right hperform =>
    rw [← hcd.isHalted_compile hsendsL] at hperform
    have hruns := (hcd.runs hsendsR hu.toRight hperform).right (cd.stream u.toLeft)
    simpa only [clean, stream_append] using hruns

theorem Sound.clean_stuck (hcd : cd.Sound P) (hL : ∀ a, (loopL a).Sends P)
    (hR : ∀ b, (loopR b).Sends P) (hu : u.Carries P) (h : Stuck (Messages loopL loopR) u) :
    Stuck (cd.Step loopL loopR) (cd.clean u) := by
  have hsendsL := hu.left.act hL
  have hsendsR := hu.right.act hR
  intro t hstep
  cases hstep with
  | left hcall =>
    refine hcd.not_performs ?_ hcall
    rw [clean, hcd.isHalted_compile hsendsR]
    cases hperform : (u.left.act loopL).perform u.toLeft (u.right.act loopR).isHalted with
    | none => rfl
    | some out => exact absurd (.left hperform) (h _)
  | right hcall =>
    refine hcd.not_performs ?_ hcall
    rw [clean, hcd.isHalted_compile hsendsL]
    cases hperform : (u.right.act loopR).perform u.toRight (u.left.act loopL).isHalted with
    | none => rfl
    | some out => exact absurd (.right hperform) (h _)

/-- A session between two messages refines the one it is made from. -/
theorem refines_clean (hu : u.Carries P) :
    ∃ n, Refines cd P loopL loopR n (cd.clean u) u :=
  ⟨_, hu, [], [], [], [], .writing .done, .writing .done, List.append_nil _, List.append_nil _, rfl⟩

/-! ## Runs -/

theorem Refines.reaches (hcd : cd.Sound P) (hL : ∀ a, (loopL a).Sends P)
    (hR : ∀ b, (loopR b).Sends P) {n : Nat} {s t : Session β (Io β α) (Io β γ)}
    (h : Refines cd P loopL loopR n s u) (hrun : ReflTransGen (cd.Step loopL loopR) s t) :
    ∃ n' v, ReflTransGen (Messages loopL loopR) u v ∧ Refines cd P loopL loopR n' t v := by
  induction hrun with
  | refl => exact ⟨n, u, .refl, h⟩
  | tail _ hstep ih =>
    obtain ⟨m, v, huv, hv⟩ := ih
    rcases hv.step hcd hL hR hstep with ⟨m', _, ht⟩ | ⟨m', v', hvv', ht⟩
    · exact ⟨m', v, huv, ht⟩
    · exact ⟨m', v', huv.tail hvv', ht⟩

/-- No run of calls is infinite when no run of the messages is. -/
theorem Refines.acc (hcd : cd.Sound P) (hL : ∀ a, (loopL a).Sends P) (hR : ∀ b, (loopR b).Sends P)
    {n : Nat} {s : Session β (Io β α) (Io β γ)} (h : Refines cd P loopL loopR n s u)
    (hu : Acc (fun v u => Messages loopL loopR u v) u) :
    Acc (fun t s => cd.Step loopL loopR s t) s :=
  acc_of_measured (fun hs hst => hs.step hcd hL hR hst) hu h

theorem Sound.clean_reaches_star (hcd : cd.Sound P) (hL : ∀ a, (loopL a).Sends P)
    (hR : ∀ b, (loopR b).Sends P) (hu : u.Carries P)
    (hrun : ReflTransGen (Messages loopL loopR) u v) :
    v.Carries P ∧ ReflTransGen (cd.Step loopL loopR) (cd.clean u) (cd.clean v) := by
  induction hrun with
  | refl => exact ⟨hu, .refl⟩
  | tail _ hstep ih =>
    obtain ⟨hcarries, hreach⟩ := ih
    exact ⟨step_carries hL hR hstep hcarries,
      hreach.trans (hcd.clean_reaches hL hR hcarries hstep).to_reflTransGen⟩

/-- No run of the messages is infinite when no run of calls is. -/
theorem Sound.acc_of_clean (hcd : cd.Sound P) (hL : ∀ a, (loopL a).Sends P)
    (hR : ∀ b, (loopR b).Sends P) (hu : u.Carries P)
    (h : Acc (fun t s => cd.Step loopL loopR s t) (cd.clean u)) :
    Acc (fun v u => Messages loopL loopR u v) u := by
  generalize hs : cd.clean u = s at h
  have htrans := h.transGen
  clear h
  induction htrans generalizing u with
  | intro s _ ih =>
    subst hs
    refine ⟨u, fun v huv => ih (cd.clean v) ?_ (step_carries hL hR huv hu) rfl⟩
    exact transGen_swap.mp (hcd.clean_reaches hL hR hu huv)

/-- A compiled program that has returned. -/
theorem Sound.compile_done (hcd : cd.Sound P) (hp : p.Sends P) {a : α}
    (h : cd.compile p = .done a) : p = .done a := by
  cases hp with
  | done b =>
    cases h
    rfl
  | halt => cases h
  | @send m f hm _ =>
    have hwrites := (hcd.writes hm).bind fun ok => cd.compile (f ok)
    exact absurd h (hwrites.ne_done (hcd.encode_ne hm) a)
  | @recv f _ =>
    obtain ⟨size, g, hread, _⟩ := hcd.ends
    rw [compile, hread] at h
    cases h

theorem Stands.of_done (hcd : cd.Sound P) (hp : p.Sends P) {a : α}
    (h : cd.Stands loop queue (.done a) p got rest) : p = .done a ∧ got = [] ∧ rest = [] := by
  cases h with
  | reading _ _ _ hreads _ hrem => exact absurd rfl (hreads.ne_done hrem a)
  | writing hwrites =>
    by_cases hrest : rest = []
    · subst hrest
      exact ⟨hcd.compile_done hp hwrites.eq_of_nil.symm, rfl, rfl⟩
    · exact absurd rfl (hwrites.ne_done hrest a)

/-- The session in which the left party has returned and starts on `p`. -/
theorem Refines.start_left (hcd : cd.Sound P) {n : Nat} {s : Session β (Io β α) (Io β γ)}
    (h : Refines cd P loopL loopR n s u) {a : α} (hdone : s.left = .done a) (hp : p.Sends P) :
    u.left = .done a ∧
      ∃ n', Refines cd P loopL loopR n' { s with left := cd.compile p } { u with left := p } := by
  obtain ⟨gotL, restL, gotR, restR, hleft, hright, htoLeft, htoRight, _⟩ := h.parts
  rw [hdone] at hleft
  obtain ⟨hu, rfl, rfl⟩ := hleft.of_done hcd h.carries.left
  exact ⟨hu, _, ⟨hp, h.carries.right, h.carries.toLeft, h.carries.toRight⟩, [], [], gotR, restR,
    .writing .done, hright, htoLeft, htoRight, rfl⟩

/-- A session on the stream in which both parties have returned and nothing is left. -/
theorem Sound.of_clean (hcd : cd.Sound P) (hu : u.Carries P) {a : α} {c : γ}
    (h : cd.clean u = ⟨.done a, .done c, [], []⟩) : u = ⟨.done a, .done c, [], []⟩ := by
  obtain ⟨left, right, toLeft, toRight⟩ := u
  have hleft := hcd.compile_done hu.left (congrArg Session.left h)
  have hright := hcd.compile_done hu.right (congrArg Session.right h)
  have hempty : ∀ queue : List μ, (∀ m ∈ queue, P m) → cd.stream queue = [] → queue = [] := by
    intro queue hqueue hnil
    by_cases hne : queue = []
    · exact hne
    · exact absurd hnil (hcd.stream_ne hqueue hne)
  have htoLeft := hempty toLeft hu.toLeft (congrArg Session.toLeft h)
  have htoRight := hempty toRight hu.toRight (congrArg Session.toRight h)
  simp only at hleft hright
  rw [hleft, hright, htoLeft, htoRight]

end Sessions

end Codec

end NetLabs.Lib
