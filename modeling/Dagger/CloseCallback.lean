import Dagger.FreeServerClient

/-! # The close callback

The callback that announces a close reaches `closeConnection` in three ways: as a field of the
source (`TcpServer`, `TcpClient`), as an argument that a read callback has captured, and as the
field `destoryCallback_` of the connection, which `activeClose` passes.  `Turn` says what a step
does to the connection as far as its end is concerned, and with which callback a close is
finished in it; `close_callback_once` compares the four kinds of connections. -/

namespace Dagger

open TcpConnection Transition

namespace TcpConnection

/-- The end of `closeWith`. -/
def finish (closeCallback erase : Bool) (c : TcpConnection) : TcpConnection :=
  let c := if closeCallback then c.log .connCloseCallback else c
  let c := c.destroy
  if erase then c.delete else c

/-- `c'` is no closer to its end than `c`. -/
structure Quiet (c c' : TcpConnection) : Prop where
  destoryCallback : c'.destoryCallback = c.destoryCallback
  closeCallbacks : c'.calls.count .connCloseCallback = c.calls.count .connCloseCallback
  destroys : c'.destroys = c.destroys
  deletes : c'.deletes = c.deletes

/-- Nothing is closed, or one close is finished, with the callback if `closeCallback`, when
nothing is left to send. -/
inductive Turn (closeCallback erase : Bool) (c c' : TcpConnection) : Prop
  | quiet : Quiet c c' → Turn closeCallback erase c c'
  | finish (c₀ : TcpConnection) : Quiet c c₀ → c₀.writeBuffer.bytes = [] →
      c' = c₀.finish closeCallback erase → Turn closeCallback erase c c'

variable {closeCallback erase : Bool} {c c' c₀ : TcpConnection}

theorem Quiet.refl (c : TcpConnection) : Quiet c c := ⟨rfl, rfl, rfl, rfl⟩

theorem Quiet.trans (h : Quiet c c₀) (h' : Quiet c₀ c') : Quiet c c' :=
  ⟨h'.destoryCallback.trans h.destoryCallback, h'.closeCallbacks.trans h.closeCallbacks,
    h'.destroys.trans h.destroys, h'.deletes.trans h.deletes⟩

theorem Quiet.log {call : Call} (h : Quiet c c₀) (hne : call ≠ .connCloseCallback) :
    Quiet c (c₀.log call) := by
  refine ⟨h.destoryCallback, Eq.trans ?_ h.closeCallbacks, h.destroys, h.deletes⟩
  show (c₀.calls ++ [call]).count .connCloseCallback = _
  rw [List.count_append, List.count_singleton, if_neg (by simpa using hne), Nat.add_zero]

theorem Turn.of_quiet (h : Quiet c c₀) (ht : Turn closeCallback erase c₀ c') :
    Turn closeCallback erase c c' := by
  cases ht with
  | quiet hq => exact .quiet (h.trans hq)
  | finish c₁ hq hb he => exact .finish c₁ (h.trans hq) hb he

theorem closeWith_turn (h : c.closeWith closeCallback erase = some c') :
    Turn closeCallback erase c c' := by
  have hreq : Quiet c (c.log .closeConnection) := (Quiet.refl c).log (by decide)
  by_cases hb : c.writeBuffer.bytes = []
  · have hpos : ¬ 0 < (c.log .closeConnection).writeBuffer.readableBytes := by
      rw [ValidBuffer.readableBytes_eq]
      exact Nat.not_lt.mpr (Nat.le_of_eq (List.length_eq_zero_iff.mpr hb))
    unfold closeWith at h
    dsimp only at h
    rw [if_neg hpos] at h
    exact .finish _ hreq hb (Option.some.inj h).symm
  · rw [closeWith_of_unsent hb] at h
    obtain rfl := Option.some.inj h
    exact .quiet ⟨rfl, hreq.closeCallbacks, rfl, rfl⟩

theorem sendStr_quiet {str : List Byte} (h : c.sendStr str = some c') : Quiet c c' := by
  unfold sendStr send at h
  dsimp only at h
  split_ifs at h
  · obtain rfl := Option.some.inj h
    exact ⟨rfl, rfl, rfl, rfl⟩
  · obtain rfl := Option.some.inj h
    exact ⟨rfl, rfl, rfl, rfl⟩

theorem checkMsg_quiet (codec : ValidBuffer IO_BUFFER_SIZE → Bool × ValidBuffer IO_BUFFER_SIZE)
    (c : TcpConnection) : Quiet c (c.checkMsg codec).1 := by
  have hq : Quiet c { c with readBuffer := (codec c.readBuffer).2 } := ⟨rfl, rfl, rfl, rfl⟩
  unfold checkMsg
  dsimp only
  split
  · exact hq.log (by decide)
  · exact hq

end TcpConnection

/-- The code of a source finishes a close with the callback if `direct`, when a read or connect
callback has entered `closeConnection` itself, and if `active` behind `activeClose`; that holds
of the connections whose `destoryCallback_` is `field`. -/
structure TcpSource.Finishes (source : TcpSource) (field direct active erase : Bool) : Prop where
  closeConnection : ∀ {l c c'}, source.closeConnection l field c = some c' →
    c.closeWith active erase = some c'
  preConnMsgCallback : ∀ {l time script c c' control},
    source.preConnMsgCallback l time script c = some (c', control) → Turn direct erase c c'
  connectCallback : ∀ {l error c c' control},
    source.connectCallback l error c = some (c', control) → Turn direct erase c c'
  callbackReturned : ∀ {l control c c'}, source.callbackReturned l control c = some c' →
    Turn direct erase c c'

/-- A server or a client of the other files uses the one callback of the source. -/
theorem TcpSource.Regular.finishes {source : TcpSource} {closeCallback erase connects : Bool}
    (h : source.Regular closeCallback erase connects)
    (hread : ∀ {l time script c c' control},
      source.preConnMsgCallback l time script c = some (c', control) →
        Turn closeCallback erase c c') (field : Bool) :
    source.Finishes field closeCallback closeCallback erase where
  closeConnection := h.closeConnection
  preConnMsgCallback := hread
  connectCallback hc := by
    rcases (h.connectCallback hc).2 with ⟨-, -, he⟩ | ⟨-, -, rfl⟩ | ⟨-, -, rfl⟩
    · exact closeWith_turn he
    · exact .quiet ((Quiet.refl _).log (by decide))
    · exact .quiet ⟨rfl, rfl, rfl, rfl⟩
  callbackReturned hr := by
    rcases h.callbackReturned hr with rfl | ⟨-, he⟩ | ⟨-, -, rfl⟩
    · exact .quiet (.refl _)
    · exact closeWith_turn he
    · exact .quiet ⟨rfl, rfl, rfl, rfl⟩

theorem TcpServer.source_finishes (server : TcpServer) (field : Bool) :
    server.source.Finishes field server.connCloseCallback server.connCloseCallback
      (!server.idleConnectionsManager) := by
  refine server.source_regular.finishes ?_ field
  intro l time script c c' control h
  obtain ⟨readBuffer, n, last, -, hcase⟩ := TcpServer.preConnMsgCallback_cases h
  rcases hcase with ⟨-, -, hc⟩ | ⟨-, -, -, rfl⟩ | ⟨-, -, -, rfl⟩
  · have hq : Quiet c { c with data := some l, readBuffer } := ⟨rfl, rfl, rfl, rfl⟩
    exact (closeWith_turn hc).of_quiet hq
  · exact .quiet ⟨rfl, rfl, rfl, rfl⟩
  · refine .quiet (Quiet.log ?_ (by decide))
    exact ⟨rfl, rfl, rfl, rfl⟩

theorem TcpClient.source_finishes (client : TcpClient) (field : Bool) :
    client.source.Finishes field client.connCloseCallback client.connCloseCallback true := by
  refine client.source_regular.finishes ?_ field
  intro l time script c c' control h
  obtain ⟨readBuffer, n, -, hcase⟩ := TcpClient.preConnMsgCallback_cases h
  have hq : Quiet c { c with readBuffer } := ⟨rfl, rfl, rfl, rfl⟩
  rcases hcase with ⟨-, -, hc⟩ | ⟨-, -, -, rfl⟩ | ⟨-, -, -, rfl⟩ | ⟨-, -, -, rfl⟩
  · exact (closeWith_turn hc).of_quiet hq
  · exact .quiet (hq.log (by decide))
  · exact .quiet ⟨rfl, rfl, rfl, rfl⟩
  · refine .quiet (Quiet.log ?_ (by decide))
    exact ⟨rfl, rfl, rfl, rfl⟩

namespace FreeServerClient

variable {free : FreeServerClient} {script : List ReadResult} {c c' : TcpConnection}
  {control : Control}

theorem check_quiet (h : free.check c = some (c', control)) : Quiet c c' := by
  have hq := checkMsg_quiet free.codec c
  unfold check at h
  dsimp only at h
  split at h
  · cases h
  · rw [(Prod.mk.inj (Option.some.inj h)).1] at hq
    exact hq

theorem bindCallback_turn (h : free.bindCallback script c = some (c', control)) :
    Turn free.destoryCallback true c c' := by
  unfold bindCallback at h
  simp only [Option.bind_eq_bind, Option.bind_eq_some_iff] at h
  obtain ⟨⟨readBuffer, n⟩, -, h⟩ := h
  have hq : Quiet c { c with readBuffer } := ⟨rfl, rfl, rfl, rfl⟩
  split_ifs at h with hzero hneg herr
  · obtain ⟨c₁, hc, h⟩ := Option.bind_eq_some_iff.mp h
    obtain ⟨rfl, rfl⟩ := Prod.mk.inj (Option.some.inj h)
    exact (closeWith_turn hc).of_quiet hq
  · obtain ⟨rfl, rfl⟩ := Prod.mk.inj (Option.some.inj h)
    exact .quiet (hq.log (by decide))
  · exact .quiet (hq.trans (check_quiet h))

theorem preConnMsgCallback_turn (h : free.preConnMsgCallback script c = some (c', control)) :
    Turn free.destoryCallback true c c' := by
  unfold preConnMsgCallback at h
  simp only [Option.bind_eq_bind, Option.bind_eq_some_iff] at h
  obtain ⟨⟨readBuffer, n⟩, -, h⟩ := h
  have hq : Quiet c { c with readBuffer } := ⟨rfl, rfl, rfl, rfl⟩
  split_ifs at h with hzero hneg herr hmsg
  · obtain ⟨c₁, hc, h⟩ := Option.bind_eq_some_iff.mp h
    obtain ⟨rfl, rfl⟩ := Prod.mk.inj (Option.some.inj h)
    exact (closeWith_turn hc).of_quiet hq
  · obtain ⟨rfl, rfl⟩ := Prod.mk.inj (Option.some.inj h)
    exact .quiet (hq.log (by decide))
  · obtain ⟨rfl, rfl⟩ := Prod.mk.inj (Option.some.inj h)
    exact .quiet hq
  · have hm := checkMsg_quiet free.codec { c with readBuffer }
    rw [Option.some.inj h] at hm
    exact .quiet (hq.trans hm)
  · obtain ⟨rfl, rfl⟩ := Prod.mk.inj (Option.some.inj h)
    exact .quiet hq

/-- A port puts its callback into both places. -/
theorem portSource_finishes (free : FreeServerClient) :
    free.portSource.Finishes free.destoryCallback free.destoryCallback free.destoryCallback
      true where
  closeConnection h := h
  preConnMsgCallback := bindCallback_turn
  connectCallback h := by cases h
  callbackReturned {l control c c'} h := by
    cases control with
    | connErrorCallback =>
        obtain ⟨⟨c₁, control⟩, hc, rfl⟩ := Option.map_eq_some_iff.mp h
        exact .quiet (check_quiet hc)
    | _ =>
        obtain rfl := Option.some.inj h
        exact .quiet (.refl _)

/-- A client connection has its callback in the read callback only. -/
theorem clientSource_finishes (free : FreeServerClient) :
    free.clientSource.Finishes false free.destoryCallback false true where
  closeConnection h := h
  preConnMsgCallback := preConnMsgCallback_turn
  connectCallback h := by cases h
  callbackReturned {l control c c'} h := by
    cases control with
    | connEstaCallback =>
        obtain rfl := Option.some.inj h
        exact .quiet ⟨rfl, rfl, rfl, rfl⟩
    | _ =>
        obtain rfl := Option.some.inj h
        exact .quiet (.refl _)

end FreeServerClient

/-! ### Steps -/

/-- The user calls `activeClose`, or the event runs `sendNonblock`, which may do so. -/
def ThroughActiveClose (s : Session) : Action → Prop
  | .activeClose => True
  | .event revents _ _ _ => (s.conn.report revents).event.handle = some .sendNonblock
  | _ => False

section Steps

variable {source : TcpSource} {field direct active erase : Bool} {l : LoopId}
  {Init : Session → Prop} {s t : Session} {a : Action}

theorem turn_write (hsrc : source.Finishes field direct active erase) {c c' : TcpConnection}
    {write : WriteResult} (hf : c.destoryCallback = field)
    (hw : write.Possible c.writeBuffer.bytes.length)
    (h : c.sendNonblock source l write = some c') : Turn active erase c c' := by
  obtain ⟨n, rest, -, -, ⟨-, rfl⟩ | ⟨-, -, hc⟩ | ⟨-, -, rfl⟩⟩ := sendNonblock_cases hw h
  · exact .quiet ⟨rfl, rfl, rfl, rfl⟩
  · have hq : Quiet c (c.wrote rest n).unwatch := ⟨rfl, rfl, rfl, rfl⟩
    unfold activeClose at hc
    rw [hq.destoryCallback, hf] at hc
    exact (closeWith_turn (hsrc.closeConnection hc)).of_quiet hq
  · exact .quiet ⟨rfl, rfl, rfl, rfl⟩

/-- `handle()` on an event of the connection. -/
theorem turn_handle (hsrc : source.Finishes field direct active erase) {revents : EpollFlags}
    {time : UInt32} {script : List ReadResult} {write : WriteResult}
    (hf : s.conn.destoryCallback = field) (hw : write.Possible s.conn.writeBuffer.bytes.length)
    (hs : s.handle source l revents time script write = some t) :
    ((s.conn.report revents).event.handle = some .sendNonblock → Turn active erase s.conn t.conn) ∧
      ((s.conn.report revents).event.handle ≠ some .sendNonblock →
        Turn direct erase s.conn t.conn) := by
  have hq : Quiet s.conn (s.conn.report revents) := ⟨rfl, rfl, rfl, rfl⟩
  unfold Session.handle at hs
  dsimp only at hs
  split at hs
  · rename_i hh
    obtain rfl := Option.some.inj hs
    rw [hh]
    exact ⟨nofun, fun _ => .quiet hq⟩
  · rename_i hh
    obtain ⟨⟨conn, control⟩, hc, hs⟩ := Option.bind_eq_some_iff.mp hs
    obtain rfl := Option.some.inj hs
    rw [hh]
    exact ⟨nofun, fun _ => (hsrc.preConnMsgCallback hc).of_quiet hq⟩
  · rename_i hh
    obtain ⟨conn, hc, hs⟩ := Option.bind_eq_some_iff.mp hs
    obtain rfl := Option.some.inj hs
    have hwrite : Turn active erase (s.conn.report revents) conn := turn_write hsrc hf hw hc
    exact ⟨fun _ => hwrite.of_quiet hq, fun hn => absurd hh hn⟩
  · rename_i hh
    obtain ⟨⟨conn, control⟩, hc, hs⟩ := Option.bind_eq_some_iff.mp hs
    obtain rfl := Option.some.inj hs
    rw [hh]
    exact ⟨nofun, fun _ => (hsrc.connectCallback hc).of_quiet hq⟩

theorem turn_step (hsrc : source.Finishes field direct active erase)
    (hf : s.conn.destoryCallback = field) (hl : a.Legal s) (hs : s.step source l a = some t) :
    (ThroughActiveClose s a → Turn active erase s.conn t.conn) ∧
      (¬ ThroughActiveClose s a → Turn direct erase s.conn t.conn) := by
  cases a with
  | send str =>
      obtain ⟨conn, hc, hs⟩ := Option.bind_eq_some_iff.mp hs
      obtain rfl := Option.some.inj hs
      exact ⟨False.elim, fun _ => .quiet (sendStr_quiet hc)⟩
  | activeClose =>
      obtain ⟨conn, hc, hs⟩ := Option.bind_eq_some_iff.mp hs
      obtain rfl := Option.some.inj hs
      unfold activeClose at hc
      rw [hf] at hc
      exact ⟨fun _ => closeWith_turn (hsrc.closeConnection hc), fun hn => absurd trivial hn⟩
  | ret =>
      obtain ⟨conn, hc, hs⟩ := Option.bind_eq_some_iff.mp hs
      obtain rfl := Option.some.inj hs
      exact ⟨False.elim, fun _ => hsrc.callbackReturned hc⟩
  | resolve ok =>
      obtain rfl := Option.some.inj hs
      exact ⟨False.elim, fun _ => .quiet (.refl _)⟩
  | reset =>
      obtain rfl := Option.some.inj hs
      exact ⟨False.elim, fun _ => .quiet (.refl _)⟩
  | event revents time script write => exact turn_handle hsrc hf hl.2.2.written hs

/-- A connection that is not destroyed has neither been deleted nor announced its close. -/
structure Unclosed (field : Bool) (c : TcpConnection) : Prop where
  destoryCallback : c.destoryCallback = field
  alive : c.destroys = 0 → c.deletes = 0 ∧ c.calls.count .connCloseCallback = 0

theorem Unclosed.turn {b : Bool} {c c' : TcpConnection} (h : Unclosed field c)
    (ht : Turn b erase c c') : Unclosed field c' := by
  cases ht with
  | quiet hq =>
      refine ⟨hq.destoryCallback.trans h.destoryCallback, fun hd => ?_⟩
      rw [hq.deletes, hq.closeCallbacks]
      exact h.alive (hq.destroys ▸ hd)
  | finish c₀ hq _ he =>
      have hfin : c'.destoryCallback = c₀.destoryCallback ∧ c'.destroys = c₀.destroys + 1 := by
        subst he
        cases b <;> cases erase <;> exact ⟨rfl, rfl⟩
      refine ⟨hfin.1.trans (hq.destoryCallback.trans h.destoryCallback), fun hd => ?_⟩
      rw [hfin.2] at hd
      cases hd

theorem unclosed_of_reachable (hsrc : source.Finishes field direct active erase)
    (hinit : ∀ s, Init s → Unclosed field s.conn)
    (h : Reachable (Session.system source l Init) s) : Unclosed field s.conn := by
  induction h with
  | init hi => exact hinit _ hi
  | @step s t a _ hs ih =>
      obtain ⟨hact, hdir⟩ := turn_step hsrc ih.destoryCallback hs.1 hs.2
      by_cases hth : ThroughActiveClose s a
      · exact ih.turn (hact hth)
      · exact ih.turn (hdir hth)

/-- Nothing happens to a connection any more after `destroy()`. -/
theorem conn_eq_or_alive (hl : a.Legal s) (hs : s.step source l a = some t) :
    t.conn = s.conn ∨ s.conn.destroys = 0 := by
  cases a with
  | send str => exact .inr hl.1
  | activeClose => exact .inr hl
  | event => exact .inr hl.1
  | ret => exact .inr hl.1
  | resolve ok =>
      obtain rfl := Option.some.inj hs
      exact .inl rfl
  | reset =>
      obtain rfl := Option.some.inj hs
      exact .inl rfl

end Steps

/-- The connection was destroyed and deleted after the close callback had been invoked, once. -/
def Announced (c' : TcpConnection) : Prop :=
  ∃ c : TcpConnection, c' = c.destroy.delete ∧ c.deletes = 0 ∧
    c.calls.count .connCloseCallback = 1

/-- A close that deletes the connection announces it if it is finished with the callback. -/
theorem Unclosed.announced_iff {field closeCallback erase : Bool} {c c' : TcpConnection}
    (h : Unclosed field c) (hd : c.destroys = 0) (ht : Turn closeCallback erase c c')
    (hdel : c.deletes < c'.deletes) : Announced c' ↔ closeCallback = true := by
  obtain ⟨hdel0, hcalls⟩ := h.alive hd
  cases ht with
  | quiet hq => exact absurd hq.deletes (Nat.ne_of_gt hdel)
  | finish c₀ hq _ he =>
      have herase : erase = true := by
        cases erase with
        | true => rfl
        | false =>
            have hsame : c'.deletes = c₀.deletes := by
              subst he
              cases closeCallback <;> rfl
            rw [hsame, hq.deletes] at hdel
            exact absurd hdel (Nat.lt_irrefl _)
      subst he herase
      have hcalls₀ : c₀.calls.count .connCloseCallback = 0 := hq.closeCallbacks.trans hcalls
      cases closeCallback with
      | true =>
          refine ⟨fun _ => rfl, fun _ => ⟨c₀.log .connCloseCallback, rfl, ?_, ?_⟩⟩
          · exact hq.deletes.trans hdel0
          · show (c₀.calls ++ [Call.connCloseCallback]).count Call.connCloseCallback = 1
            rw [List.count_append, hcalls₀, List.count_singleton_self]
      | false =>
          refine ⟨?_, fun hf => absurd hf Bool.false_ne_true⟩
          rintro ⟨c, hc, -, hone⟩
          have hsame : (c₀.finish false true).calls = c.destroy.delete.calls := by rw [hc]
          change c₀.calls = c.calls at hsame
          rw [← hsame, hcalls₀] at hone
          exact absurd hone Nat.zero_ne_one

/-! ### The four kinds of connections -/

/-- Where a connection comes from, in the default build for the last two. -/
inductive Origin where
  | tcpServer (server : TcpServer)
  | tcpClient (client : TcpClient)
  | serverPort (free : FreeServerClient)
  | clientConn (free : FreeServerClient)

namespace Origin

def runs (l : LoopId) : Origin → System Session Action
  | tcpServer server => server.runs l
  | tcpClient client => client.runs l
  | serverPort free => free.portRuns l
  | clientConn free => free.clientRuns l

/-- A close callback is configured. -/
def closeCallback : Origin → Bool
  | tcpServer server => server.connCloseCallback
  | tcpClient client => client.connCloseCallback
  | serverPort free => free.destoryCallback
  | clientConn free => free.destoryCallback

/-- `closeConnection` gets to know the callback: on all connections but those of
`createClientConn`, and there from the read callback. -/
def Passes (s : Session) (a : Action) : Origin → Prop
  | clientConn _ => ¬ ThroughActiveClose s a
  | _ => True

variable {origin : Origin} {l : LoopId} {s t : Session} {a : Action}

theorem announced_iff_of {source : TcpSource} {field direct active erase : Bool}
    {Init : Session → Prop} (hsrc : source.Finishes field direct active erase)
    (hinit : ∀ s, Init s → Unclosed field s.conn)
    (h : Reachable (Session.system source l Init) s)
    (hs : (Session.system source l Init).Step s a t) (hdel : s.conn.deletes < t.conn.deletes) :
    (ThroughActiveClose s a → (Announced t.conn ↔ active = true)) ∧
      (¬ ThroughActiveClose s a → (Announced t.conn ↔ direct = true)) := by
  have hun := unclosed_of_reachable hsrc hinit h
  have hd : s.conn.destroys = 0 := by
    rcases conn_eq_or_alive hs.1 hs.2 with he | hd
    · rw [he] at hdel
      exact absurd hdel (Nat.lt_irrefl _)
    · exact hd
  obtain ⟨hact, hdir⟩ := turn_step hsrc hun.destoryCallback hs.1 hs.2
  exact ⟨fun hth => hun.announced_iff hd (hact hth) hdel,
    fun hth => hun.announced_iff hd (hdir hth) hdel⟩

/-- A source that knows one callback for all closes invokes it. -/
theorem announced_of {source : TcpSource} {field erase : Bool} {Init : Session → Prop}
    (hsrc : source.Finishes field true true erase)
    (hinit : ∀ s, Init s → Unclosed field s.conn)
    (h : Reachable (Session.system source l Init) s)
    (hs : (Session.system source l Init).Step s a t) (hdel : s.conn.deletes < t.conn.deletes) :
    Announced t.conn := by
  obtain ⟨hact, hdir⟩ := announced_iff_of hsrc hinit h hs hdel
  by_cases hth : ThroughActiveClose s a
  · exact (hact hth).mpr rfl
  · exact (hdir hth).mpr rfl

/-- In every run that ends with a connection being deleted, a close callback that is configured
was invoked exactly once, and before that, if and only if `closeConnection` got to know it. -/
theorem close_callback_once (hset : origin.closeCallback = true)
    (h : Reachable (origin.runs l) s) (hs : (origin.runs l).Step s a t)
    (hdel : s.conn.deletes < t.conn.deletes) : Announced t.conn ↔ origin.Passes s a := by
  cases origin with
  | tcpServer server =>
      have hsrc := server.source_finishes false
      rw [show server.connCloseCallback = true from hset] at hsrc
      refine iff_of_true (announced_of hsrc ?_ h hs hdel) trivial
      rintro _ ⟨time, rfl⟩
      exact ⟨rfl, fun _ => ⟨rfl, rfl⟩⟩
  | tcpClient client =>
      have hsrc := client.source_finishes false
      rw [show client.connCloseCallback = true from hset] at hsrc
      refine iff_of_true (announced_of hsrc ?_ h hs hdel) trivial
      rintro _ ⟨_, -, rfl⟩
      exact ⟨rfl, fun _ => ⟨rfl, rfl⟩⟩
  | serverPort free =>
      have hsrc := free.portSource_finishes
      have hf : free.destoryCallback = true := hset
      rw [hf] at hsrc
      refine iff_of_true (announced_of hsrc ?_ h hs hdel) trivial
      rintro _ rfl
      exact ⟨hf, fun _ => ⟨rfl, rfl⟩⟩
  | clientConn free =>
      have hsrc := free.clientSource_finishes
      rw [show free.destoryCallback = true from hset] at hsrc
      have hinit : ∀ s, (∃ attempt : Attempt, attempt ≠ .pending ∧
          s = { free.created l with attempt }) → Unclosed false s.conn := by
        rintro _ ⟨attempt, -, rfl⟩
        unfold FreeServerClient.created
        split
        · exact ⟨rfl, fun _ => ⟨rfl, rfl⟩⟩
        · exact ⟨rfl, fun _ => ⟨rfl, rfl⟩⟩
      obtain ⟨hact, hdir⟩ := announced_iff_of hsrc hinit h hs hdel
      by_cases hth : ThroughActiveClose s a
      · exact (hact hth).trans ⟨fun hf => absurd hf Bool.false_ne_true, fun hn => absurd hth hn⟩
      · exact (hdir hth).trans ⟨fun _ => hth, fun _ => rfl⟩

/-- Nothing is ever ready, and only the close callback is set. -/
def announcing : FreeServerClient := ⟨fun b => (false, b), false, false, true, false⟩

theorem activeClose_empty {source : TcpSource} {b : Bool} {c : TcpConnection}
    (hsrc : source.closeConnection l c.destoryCallback c = c.closeWith b true)
    (hb : c.writeBuffer.bytes = []) :
    Session.step source l { conn := c } .activeClose = some { conn := c.closeNow b true } :=
  Session.step_activeClose (hsrc.trans (closeWith_of_empty hb))

/-- `activeClose` on a connection that a port has accepted, at once and while a byte is unsent: the
event that writes the byte then deletes the connection. -/
theorem close_callback_once_port : Announced ((announcing.accepted 0).closeNow true true) ∧
    ∃ s t, Path (announcing.portRuns 0) { conn := announcing.accepted 0 }
        [.send [1], .activeClose] s ∧
      (announcing.portRuns 0).Step s (.event { EPOLLOUT := true } 0 [] (.accepted 1)) t ∧
      s.conn.deletes = 0 ∧ t.conn.deletes = 1 ∧ Announced t.conn := by
  constructor
  · exact (@close_callback_once (.serverPort announcing) 0 { conn := announcing.accepted 0 }
      { conn := (announcing.accepted 0).closeNow true true } .activeClose rfl (.init rfl)
      ⟨rfl, activeClose_empty rfl rfl⟩ (by decide)).mpr trivial
  · have hactive : ∀ c : TcpConnection, c.destoryCallback = true →
        c.activeClose announcing.portSource 0 = c.closeWith true true := by
      intro c hd
      show FreeServerClient.closeConnection c.destoryCallback c = _
      rw [hd]
      rfl
    let c₁ := (announcing.accepted 0).queue [1]
    have hb₁ : c₁.writeBuffer.bytes = [1] := ValidBuffer.bytes_append (.make _) [1]
    have hdefer : c₁.activeClose announcing.portSource 0 = some c₁.deferClose :=
      (hactive c₁ rfl).trans (closeWith_of_unsent (by rw [hb₁]; decide))
    let c₂ := c₁.deferClose.report { EPOLLOUT := true }
    have hb₂ : c₂.writeBuffer.bytes = [1] := hb₁
    obtain ⟨rest, hrest, heq⟩ := @sendNonblock_last c₂ announcing.portSource 0 1
      (by rw [hb₂]; rfl) rfl
    have hflush : c₂.sendNonblock announcing.portSource 0 (.accepted 1) =
        some ((c₂.wrote rest 1).unwatch.closeNow true true) :=
      heq.trans ((hactive _ rfl).trans (closeWith_of_empty hrest))
    have hpath : Path (announcing.portRuns 0) { conn := announcing.accepted 0 }
        [.send [1], .activeClose] { conn := c₁.deferClose } :=
      .cons ⟨⟨rfl, by decide⟩, Session.step_send (by decide)⟩
        (.cons ⟨rfl, Session.step_activeClose hdefer⟩ (.nil _))
    have hs : (announcing.portRuns 0).Step { conn := c₁.deferClose }
        (.event { EPOLLOUT := true } 0 [] (.accepted 1))
        { conn := (c₂.wrote rest 1).unwatch.closeNow true true } := by
      refine ⟨Session.legal_write rfl rfl rfl rfl trivial ?_, Session.step_write rfl hflush⟩
      show 1 ≤ c₂.writeBuffer.bytes.length
      rw [hb₂]
      rfl
    exact ⟨_, _, hpath, hs, rfl, rfl, (@close_callback_once (.serverPort announcing) 0 _ _ _ rfl
      (hpath.reachable (.init rfl)) hs Nat.one_pos).mpr trivial⟩

/-- `activeClose` on a connection of `createClientConn` deletes it without the callback. -/
theorem close_callback_skipped : (announcing.clientRuns 0).Init (announcing.created 0) ∧ ∃ t,
    Path (announcing.clientRuns 0) (announcing.created 0) [.activeClose] t ∧
      t.conn.deletes = 1 ∧ t.conn.calls = [.closeConnection] :=
  ⟨⟨.succeeded, nofun, rfl⟩, _, .cons ⟨rfl, activeClose_empty (b := false) rfl rfl⟩ (.nil _), rfl,
    rfl⟩

end Origin

end Dagger
