import Dagger.ServerStep

/-! # The owner's mark

`preConnMsgCallback` stores `localEventLoop` in the slot that `data()` and `setData` give to the
user, and the first assertion of `TcpServer::closeConnection` asks for it.  Before the first read
event the slot is empty, and the user may write to it at any time.

The runs are made on the thread of the connection's loop, so every close is made by the owner:
the steps of `Session.lean`, `setData`, and the tasks of the connection's timer, whose calls are
the steps between their start and their end.  `mark` is what the slot holds as a function of what
has happened; `assertion_holds_iff` says when the assertion finds the owner there.

A step is `none` where that assertion fails, and where the process ends right behind it: the
connection's `Timer` cancels its handlers when it is destroyed, and the first `cancelTimer` throws
`std::bad_weak_ptr` out of the destructor. -/

namespace Dagger

open TcpConnection Transition

/-- A connection with its timer. -/
structure TimedSession where
  session : Session
  /-- The tasks of `timer_`; `true` for those of `addTimedTask`. -/
  tasks : List Bool := []
  /-- One of them is running. -/
  inTask : Bool := false
  /-- `timer_` has been given a handler; those of tasks that are done stay in its map. -/
  handlers : Bool := false

namespace TimedSession

inductive Act where
  | session (a : Action)
  /-- Pointers are named by numbers, as the loops are. -/
  | setData (ptr : Option LoopId)
  | addOneTask
  | addTimedTask
  /-- Task `i` is due. -/
  | startTask (i : ℕ)
  | endTask

section Defs

variable (server : TcpServer) (l : LoopId) (s : TimedSession)

def conn : TcpConnection := s.session.conn

def next : Act → Option TimedSession
  | .session a => do
      let session ← s.session.step server.source l a
      -- the connection is deleted, and its timer with it
      if s.handlers ∧ s.conn.deletes < session.conn.deletes then none else some { s with session }
  | .setData ptr =>
      some { s with session := { s.session with conn := { s.conn with data := ptr } } }
  | .addOneTask => some { s with tasks := s.tasks ++ [false], handlers := true }
  | .addTimedTask => some { s with tasks := s.tasks ++ [true], handlers := true }
  | .startTask i =>
      some { s with
        tasks := if s.tasks[i]? = some false then s.tasks.eraseIdx i else s.tasks
        inTask := true }
  | .endTask => some { s with inTask := false }

/-- Events wait for the task that is running.  A `::write` that fails is met by another assertion,
the one in `retrieve`. -/
def Legal : Act → Prop
  | .session (.event revents time script write) =>
      Action.Legal s.session (.event revents time script write) ∧ s.inTask = false ∧
        ∃ n, write = .accepted n
  | .session a => a.Legal s.session
  | .setData _ | .addOneTask | .addTimedTask => s.conn.destroys = 0
  | .startTask i => i < s.tasks.length ∧ s.session.control = .loop ∧ s.inTask = false
  | .endTask => s.inTask = true

/-- What `closeConnection` finds in `data()`, if it is entered in this step. -/
def asserted : Act → Option (Option LoopId)
  | .session .activeClose => some s.conn.data
  | .session (.event revents _ script write) =>
      match (s.conn.report revents).event.handle with
      | some .preConnMsgCallback => if Buffer.readReturn script ≤ 0 then some (some l) else none
      | some .sendNonblock =>
          if s.conn.isWillClose ∧ write = .accepted s.conn.writeBuffer.bytes.length then
            some s.conn.data
          else none
      | _ => none
  | _ => none

/-- The step is an `activeClose`, or the writable event that carries out a deferred close. -/
def Closes : Act → Prop
  | .session .activeClose => True
  | .session (.event revents _ _ write) =>
      (s.conn.report revents).event.handle = some .sendNonblock ∧ s.conn.isWillClose ∧
        write = .accepted s.conn.writeBuffer.bytes.length
  | _ => False

/-- The step deletes a connection whose timer has handlers to cancel. -/
def Terminates : Act → Prop
  | .session a => s.handlers = true ∧ server.idleConnectionsManager = false ∧
      TcpServer.Destroys s.session a
  | _ => False

end Defs

def system (server : TcpServer) (l : LoopId) : System TimedSession Act where
  Init s := ∃ time, s = { session := { conn := TcpServer.accepted l time } }
  Step s a t := s.Legal a ∧ s.next server l a = some t

/-- The slot after a step. -/
def markStep (l : LoopId) (data : Option LoopId) : Act → Option LoopId
  | .setData ptr => ptr
  | .session (.event revents _ _ _) =>
      if revents.EPOLLIN || revents.EPOLLPRI || revents.EPOLLRDNORM then some l else data
  | _ => data

/-- What the last read event or `setData` has left in the slot. -/
def mark (l : LoopId) (as : List Act) : Option LoopId := as.foldl (markStep l) none

variable {server : TcpServer} {l : LoopId} {s t : TimedSession} {a : Act}
  {closeCallback erase : Bool}

/-! ### The invariant -/

/-- A connection of a server, apart from what it has received and sent. -/
structure Settled (c : TcpConnection) : Prop where
  wired : c.Wired
  writeCallback : c.event.writeCallback ≠ some .connectCallback
  destoryCallback : c.destoryCallback = false

namespace Settled

variable {c c' : TcpConnection}

theorem wantWrite {e : Event Callback} (h : e.writeCallback ≠ some .connectCallback) :
    e.wantWrite.writeCallback ≠ some .connectCallback := by
  rw [Event.writeCallback_wantWrite]
  split_ifs
  · exact h
  · decide

theorem queue (h : Settled c) (str : List Byte) : Settled (c.queue str) :=
  ⟨h.wired.queue str, wantWrite h.writeCallback, h.destoryCallback⟩

theorem effect (h : Settled c) (he : Effect closeCallback erase c c') : Settled c' := by
  have hw := h.wired.effect he
  cases he with
  | deferClose _ => exact ⟨hw, wantWrite h.writeCallback, h.destoryCallback⟩
  | _ => exact ⟨hw, h.writeCallback, h.destoryCallback⟩

theorem effects (h : Settled c) (he : Effects closeCallback erase c c') : Settled c' :=
  he.invariant (fun _ _ => effect) h

end Settled

theorem legal_session {a : Action} (h : s.Legal (.session a)) : a.Legal s.session := by
  cases a with
  | event => exact h.1
  | _ => exact h

theorem session_of_next {a : Action} (h : s.next server l (.session a) = some t) :
    ∃ u, s.session.step server.source l a = some u ∧ t = { s with session := u } := by
  obtain ⟨u, hu, h⟩ := Option.bind_eq_some_iff.mp h
  split_ifs at h
  exact ⟨u, hu, (Option.some.inj h).symm⟩

theorem settled_step (h : Settled s.conn) (hs : (system server l).Step s a t) : Settled t.conn := by
  obtain ⟨hl, hn⟩ := hs
  cases a with
  | session a =>
      obtain ⟨u, hu, rfl⟩ := session_of_next hn
      have hsrc := server.source_regular
      rcases Session.step_cases hsrc h.wired (legal_session hl) hu with
        ⟨str, -, -, rfl⟩ | ⟨-, he⟩ | ⟨_, _, _, _, -, -, hc⟩ | ⟨-, hr, -⟩
      · exact h.queue str
      · exact h.effects he
      · cases (hsrc.connectCallback hc).1
      · rcases hsrc.callbackReturned hr with he | ⟨-, he⟩ | ⟨hconn, -⟩
        · show Settled u.conn
          rw [he]
          exact h
        · exact h.effect (closeWith_effect he)
        · cases hconn
  | setData ptr =>
      obtain rfl := Option.some.inj hn
      exact ⟨⟨h.wired.plain, h.wired.readCallback, h.wired.writeCallback⟩, h.writeCallback,
        h.destoryCallback⟩
  | _ =>
      obtain rfl := Option.some.inj hn
      exact h

theorem settled_accepted (l : LoopId) (time : UInt32) : Settled (TcpServer.accepted l time) :=
  ⟨⟨⟨rfl, rfl, rfl, rfl, rfl⟩, rfl, nofun⟩, nofun, rfl⟩

/-! ### The mark -/

/-- The read callback runs when something to read is reported. -/
theorem handle_read {c : TcpConnection} (h : c.Wired) (revents : EpollFlags) :
    (c.report revents).event.handle = some .preConnMsgCallback ↔
      (revents.EPOLLIN || revents.EPOLLPRI || revents.EPOLLRDNORM) = true := by
  have hread : (c.report revents).event.readCallback = some .preConnMsgCallback := h.readCallback
  have herr : (c.report revents).event.errorCallback = none := h.plain.errorCallback
  have hclose : (c.report revents).event.closeCallback = none := h.plain.closeCallback
  have hwrite : (c.report revents).event.writeCallback ≠ some .preConnMsgCallback :=
    h.writeCallback
  have hflags : (c.report revents).event.revents = revents := rfl
  unfold Event.handle
  simp only [herr, hread, hclose, hflags, Option.isSome_none, Option.isSome_some, Bool.and_false,
    Bool.and_true, Bool.false_eq_true, if_false]
  split_ifs with hin hout
  · exact iff_of_true rfl hin
  · exact iff_of_false hwrite hin
  · exact iff_of_false nofun hin

theorem closeWith_data {c c' : TcpConnection} (h : c.closeWith closeCallback erase = some c') :
    c'.data = c.data := by
  obtain ⟨-, rfl⟩ | ⟨-, rfl⟩ := closeWith_cases h
  · rfl
  · rfl

theorem read_data {c c' : TcpConnection} {time : UInt32} {script : List ReadResult}
    {control : Control}
    (h : server.preConnMsgCallback l time script c = some (c', control)) : c'.data = some l := by
  obtain ⟨readBuffer, n, last, -, ⟨-, -, hc⟩ | ⟨-, -, -, rfl⟩ | ⟨-, -, -, rfl⟩⟩ :=
    TcpServer.preConnMsgCallback_cases h
  · exact closeWith_data hc
  · rfl
  · rfl

theorem sendNonblock_data {c c' : TcpConnection} {write : WriteResult}
    (hwrite : write.Possible c.writeBuffer.bytes.length)
    (h : c.sendNonblock server.source l write = some c') : c'.data = c.data := by
  obtain ⟨n, rest, -, -, ⟨-, rfl⟩ | ⟨-, -, hc⟩ | ⟨-, -, rfl⟩⟩ := sendNonblock_cases hwrite h
  · rfl
  · exact (closeWith_data (TcpServer.closeConnection_eq hc)).trans rfl
  · rfl

/-- A step writes to the slot what `markStep` says. -/
theorem data_step (h : Settled s.conn) (hs : (system server l).Step s a t) :
    t.conn.data = markStep l s.conn.data a := by
  obtain ⟨hl, hn⟩ := hs
  cases a with
  | session a =>
      obtain ⟨u, hu, rfl⟩ := session_of_next hn
      show u.conn.data = _
      cases a with
      | send str =>
          rw [Session.step_send hl.2] at hu
          rw [← Option.some.inj hu]
          rfl
      | activeClose =>
          obtain ⟨c', hc, hu⟩ := Option.bind_eq_some_iff.mp hu
          rw [← Option.some.inj hu]
          exact closeWith_data (TcpServer.closeConnection_eq hc)
      | event revents time script write =>
          obtain ⟨⟨-, -, hrep⟩, -⟩ := hl
          have hread := handle_read h.wired revents
          simp only [markStep]
          rcases Session.event_cases h.wired hrep.interest hu with
            ⟨hh, rfl⟩ | ⟨hh, hc, -⟩ | ⟨hh, -, -, hc, -⟩ | ⟨-, -, hcb, -⟩
          · rw [if_neg fun hf => absurd (hh.symm.trans (hread.mpr hf)) nofun]
            rfl
          · rw [if_pos (hread.mp hh)]
            exact read_data hc
          · rw [if_neg fun hf => absurd (hh.symm.trans (hread.mpr hf)) (by decide)]
            exact sendNonblock_data (c := s.conn.report revents) hrep.written hc
          · exact absurd hcb h.writeCallback
      | ret =>
          rw [← Option.some.inj hu]
          rfl
      | resolve ok =>
          rw [← Option.some.inj hu]
          rfl
      | reset =>
          rw [← Option.some.inj hu]
          rfl
  | _ =>
      obtain rfl := Option.some.inj hn
      rfl

theorem data_path {as : List Act} (hp : Path (system server l) s as t) (h : Settled s.conn) :
    Settled t.conn ∧ t.conn.data = as.foldl (markStep l) s.conn.data := by
  induction hp with
  | nil => exact ⟨h, rfl⟩
  | cons hs _ ih =>
      obtain ⟨hset, hdata⟩ := ih (settled_step h hs)
      rw [data_step h hs] at hdata
      exact ⟨hset, hdata⟩

/-! ### The assertion -/

/-- A close fails at the assertion, or not at all. -/
theorem closeConnection_eq_none (server : TcpServer) (l : LoopId) (c : TcpConnection)
    {destoryCallback : Bool} (hd : destoryCallback = false) :
    server.closeConnection l destoryCallback c = none ↔ c.data ≠ some l := by
  unfold TcpServer.closeConnection
  by_cases hdata : c.data = some l
  · rw [if_pos ⟨hdata, hd⟩]
    obtain ⟨c', hc⟩ := exists_closeWith server.connCloseCallback (!server.idleConnectionsManager) c
    rw [hc]
    exact iff_of_false nofun (fun hne => hne hdata)
  · rw [if_neg fun hand => hdata hand.1]
    exact iff_of_true rfl hdata

/-- A read event marks the connection before it closes it. -/
theorem read_ne_none (server : TcpServer) (l : LoopId) (time : UInt32) (c : TcpConnection)
    {script : List ReadResult} (hdel : Buffer.Deliverable 4096 script) :
    server.preConnMsgCallback l time script c ≠ none := by
  obtain ⟨readBuffer, e, -⟩ := ValidBuffer.readFromSocket_of_deliverable (b := c.readBuffer) hdel
  obtain ⟨c', hc⟩ : ∃ c', server.closeConnection l false { c with data := some l, readBuffer } =
      some c' := by
    refine Option.ne_none_iff_exists'.mp fun hnone => ?_
    exact (closeConnection_eq_none server l _ rfl).mp hnone rfl
  unfold TcpServer.preConnMsgCallback
  simp only [e, hc, Option.bind_eq_bind, Option.bind_some]
  split_ifs <;> exact nofun

theorem sendNonblock_eq_none {c : TcpConnection} {n : ℕ} (hn : n ≤ c.writeBuffer.bytes.length)
    (hd : c.destoryCallback = false) : c.sendNonblock server.source l (.accepted n) = none ↔
      (c.isWillClose = true ∧ n = c.writeBuffer.bytes.length) ∧ c.data ≠ some l := by
  obtain ⟨rest, -, he⟩ := @sendNonblock_eq c server.source l n hn
  rw [he]
  by_cases hlt : n < c.writeBuffer.bytes.length
  · rw [if_pos hlt]
    exact iff_of_false nofun fun hx => absurd hx.1.2 (by omega)
  · rw [if_neg hlt]
    have hall : n = c.writeBuffer.bytes.length := by omega
    by_cases hwill : c.isWillClose = true
    · rw [if_pos hwill]
      have hclose := closeConnection_eq_none server l (c.wrote rest n).unwatch hd
      exact hclose.trans ⟨fun hne => ⟨⟨hwill, hall⟩, hne⟩, fun hx => hx.2⟩
    · rw [if_neg hwill]
      exact iff_of_false nofun fun hx => hwill hx.1.1

theorem bind_some_eq_none {β γ : Type} {o : Option β} {f : β → γ} :
    (o.bind fun x => some (f x)) = none ↔ o = none := by
  cases o with
  | none => exact iff_of_true rfl rfl
  | some x => exact iff_of_false nofun nofun

theorem next_session {a : Action} {u : Session}
    (h : s.session.step server.source l a = some u) (hd : u.conn.deletes = s.conn.deletes) :
    s.next server l (.session a) = some { s with session := u } := by
  simp only [next, h, hd, Option.bind_eq_bind, Option.bind_some, Nat.lt_irrefl, and_false, if_false]

section event
variable {revents : EpollFlags} {time : UInt32} {script : List ReadResult} {write : WriteResult}
  {n : ℕ}

theorem asserted_of_read (hh : (s.conn.report revents).event.handle = some .preConnMsgCallback) :
    s.asserted l (.session (.event revents time script write)) =
      if Buffer.readReturn script ≤ 0 then some (some l) else none := by
  simp only [asserted, hh]

theorem asserted_of_write (hh : (s.conn.report revents).event.handle = some .sendNonblock) :
    s.asserted l (.session (.event revents time script write)) =
      if s.conn.isWillClose ∧ write = .accepted s.conn.writeBuffer.bytes.length then
        some s.conn.data
      else none := by
  simp only [asserted, hh]

theorem asserted_of_neither
    (hr : (s.conn.report revents).event.handle ≠ some .preConnMsgCallback)
    (hw : (s.conn.report revents).event.handle ≠ some .sendNonblock) :
    s.asserted l (.session (.event revents time script write)) = none := by
  cases hh : (s.conn.report revents).event.handle with
  | none => simp only [asserted, hh]
  | some callback =>
      cases callback with
      | preConnMsgCallback => exact absurd hh hr
      | sendNonblock => exact absurd hh hw
      | connectCallback => simp only [asserted, hh]

/-- The handling of an event fails at the assertion, or not at all. -/
theorem handle_eq_none_iff (h : Settled s.conn) (hdel : Buffer.Deliverable 4096 script)
    (hn : n ≤ s.conn.writeBuffer.bytes.length) :
    s.session.handle server.source l revents time script (.accepted n) = none ↔
      ∃ data, s.asserted l (.session (.event revents time script (.accepted n))) = some data ∧
        data ≠ some l := by
  have hconn : s.session.conn = s.conn := rfl
  cases hh : (s.conn.report revents).event.handle with
  | none =>
      rw [asserted_of_neither (by rw [hh]; decide) (by rw [hh]; decide)]
      simp only [Session.handle, hconn, hh, reduceCtorEq, false_and, exists_false]
  | some callback =>
      cases callback with
      | preConnMsgCallback =>
          obtain ⟨⟨c', control⟩, hc⟩ := Option.ne_none_iff_exists'.mp
            (read_ne_none server l time (s.conn.report revents) hdel)
          have hsource : server.source.preConnMsgCallback l time script (s.conn.report revents) =
              some (c', control) := hc
          rw [asserted_of_read hh]
          simp only [Session.handle, hconn, hh, hsource, Option.bind_eq_bind, Option.bind_some]
          refine iff_of_false (Option.some_ne_none _) ?_
          rintro ⟨data, hd, hne⟩
          split_ifs at hd
          exact hne (Option.some.inj hd).symm
      | sendNonblock =>
          have hnone : s.session.handle server.source l revents time script (.accepted n) = none ↔
              (s.conn.report revents).sendNonblock server.source l (.accepted n) = none := by
            simp only [Session.handle, hconn, hh, Option.bind_eq_bind]
            exact bind_some_eq_none
          rw [hnone, sendNonblock_eq_none (c := s.conn.report revents) hn h.destoryCallback,
            asserted_of_write hh]
          by_cases hclose : s.conn.isWillClose = true ∧
              WriteResult.accepted n = .accepted s.conn.writeBuffer.bytes.length
          · rw [if_pos hclose]
            constructor
            · rintro ⟨-, hne⟩
              exact ⟨_, rfl, hne⟩
            · rintro ⟨data, hd, hne⟩
              refine ⟨⟨hclose.1, WriteResult.accepted.inj hclose.2⟩, ?_⟩
              rw [show (s.conn.report revents).data = s.conn.data from rfl, Option.some.inj hd]
              exact hne
          · rw [if_neg hclose]
            refine iff_of_false ?_ (by simp)
            rintro ⟨⟨hwill, hall⟩, -⟩
            exact hclose ⟨hwill, congrArg WriteResult.accepted hall⟩
      | connectCallback =>
          rcases Event.handle_slot h.wired.plain hh with hcb | hcb
          · rw [h.wired.readCallback] at hcb
            cases Option.some.inj hcb
          · exact absurd hcb h.writeCallback

/-- What the assertion finds when an event is handled. -/
theorem asserted_event_iff : (∀ data, s.asserted l (.session (.event revents time script write)) =
      some data → data = some l) ↔
    (s.Closes (.session (.event revents time script write)) → s.conn.data = some l) := by
  simp only [Closes]
  by_cases hr : (s.conn.report revents).event.handle = some .preConnMsgCallback
  · rw [asserted_of_read hr, hr]
    refine iff_of_true (fun data hd => ?_) fun hx => absurd hx.1 (by decide)
    split_ifs at hd
    exact (Option.some.inj hd).symm
  · by_cases hw : (s.conn.report revents).event.handle = some .sendNonblock
    · rw [asserted_of_write hw, hw]
      simp only [true_and]
      split_ifs with hclose
      · exact ⟨fun h _ => h _ rfl, fun h data hd => (Option.some.inj hd).symm.trans (h hclose)⟩
      · exact iff_of_true nofun fun h => absurd h hclose
    · rw [asserted_of_neither hr hw]
      exact iff_of_true nofun fun hx => absurd hx.1 hw

end event

/-- The code of a legal step fails at this assertion only. -/
theorem step_eq_none_iff {a : Action} (h : Settled s.conn) (hl : s.Legal (.session a)) :
    s.session.step server.source l a = none ↔
      ∃ data, s.asserted l (.session a) = some data ∧ data ≠ some l := by
  cases a with
  | send str =>
      rw [Session.step_send hl.2]
      exact iff_of_false nofun (by simp [asserted])
  | activeClose =>
      refine bind_some_eq_none.trans ?_
      refine (closeConnection_eq_none server l s.conn h.destoryCallback).trans ?_
      simp [asserted, conn]
  | event revents time script write =>
      obtain ⟨⟨-, -, hrep⟩, -, n, rfl⟩ := hl
      exact handle_eq_none_iff h hrep.deliverable hrep.written
  | ret => exact iff_of_false nofun (by simp [asserted])
  | resolve ok => exact iff_of_false nofun (by simp [asserted])
  | reset => exact iff_of_false nofun (by simp [asserted])

/-- A step deletes the connection if it destroys it, in the default build. -/
theorem deletes_iff {a : Action} {u : Session} (hw : s.conn.Wired) (hl : a.Legal s.session)
    (h : s.session.step server.source l a = some u) :
    s.conn.deletes < u.conn.deletes ↔
      server.idleConnectionsManager = false ∧ TcpServer.Destroys s.session a := by
  have hspec := TcpServer.step_spec hw hl h
  by_cases hd : TcpServer.Destroys s.session a
  · have hdel : u.conn.deletes = s.conn.deletes + (!server.idleConnectionsManager).toNat :=
      (hspec.destroyed hd).2.1
    rw [hdel]
    cases server.idleConnectionsManager <;> simp [hd]
  · have hdel : u.conn.deletes = s.conn.deletes := (hspec.kept hd).2.1
    rw [hdel]
    exact iff_of_false (Nat.lt_irrefl _) fun hx => hd hx.2

/-- **A legal step fails** at this assertion, or because it deletes a connection with timers. -/
theorem next_eq_none_iff (h : Settled s.conn) (hl : s.Legal a) :
    s.next server l a = none ↔
      (∃ data, s.asserted l a = some data ∧ data ≠ some l) ∨ s.Terminates server a := by
  cases a with
  | session a =>
      rw [← step_eq_none_iff h hl]
      cases hstep : s.session.step server.source l a with
      | none =>
          refine iff_of_true ?_ (Or.inl rfl)
          simp only [next, hstep, Option.bind_eq_bind, Option.bind_none]
      | some u =>
          have hdel := deletes_iff h.wired (legal_session hl) hstep
          simp only [next, hstep, Option.bind_eq_bind, Option.bind_some, Terminates,
            reduceCtorEq, false_or, ite_eq_left_iff, imp_false, not_not, hdel]
  | _ => exact iff_of_false nofun (by simp [asserted, Terminates])

/-- What the assertion finds: the owner, or what the slot holds before the step. -/
theorem asserted_iff (l : LoopId) (s : TimedSession) (a : Act) :
    (∀ data, s.asserted l a = some data → data = some l) ↔
      (s.Closes a → s.conn.data = some l) := by
  cases a with
  | session a =>
      cases a with
      | activeClose =>
          exact ⟨fun h _ => h _ rfl, fun h data hd => (Option.some.inj hd).symm.trans (h trivial)⟩
      | event revents time script write => exact asserted_event_iff
      | _ => exact iff_of_true nofun nofun
  | _ => exact iff_of_true nofun nofun

/-- **The assertion of `closeConnection` holds** in a step exactly when, if the step closes the
connection other than at the end of a read event, the last read event or `setData` before it has
left the owner in the slot; and the step comes to its end exactly when the assertion holds and it
deletes no connection that ever had a timer of its own. -/
theorem assertion_holds_iff {as : List Act} {time : UInt32}
    (hp : Path (system server l) { session := { conn := TcpServer.accepted l time } } as s)
    (hl : s.Legal a) :
    ((∀ data, s.asserted l a = some data → data = some l) ↔ (s.Closes a → mark l as = some l)) ∧
      (s.next server l a ≠ none ↔
        (s.Closes a → mark l as = some l) ∧ ¬ s.Terminates server a) := by
  obtain ⟨hset, hdata⟩ := data_path hp (settled_accepted l time)
  have hmark : s.conn.data = mark l as := hdata
  have hiff := asserted_iff l s a
  rw [hmark] at hiff
  refine ⟨hiff, ?_⟩
  rw [← hiff, ne_eq, next_eq_none_iff hset hl, not_or]
  push Not
  rfl

/-- A spurious read event marks the connection as well as one that brings data. -/
def readEvent : Act := .session (.event { EPOLLIN := true } 0 [] (.accepted 0))

theorem path_readEvent (handlers : Bool) (tasks : List Bool) :
    ∃ s : TimedSession, (system .waiting 0).Step
      { session := { conn := TcpServer.accepted 0 0 }, tasks, handlers } readEvent s ∧
      s.Legal (.session .activeClose) ∧ s.handlers = handlers ∧ s.conn.writeBuffer.bytes = [] := by
  obtain ⟨readBuffer, hread⟩ := @TcpServer.waiting_read 0
    ((TcpServer.accepted 0 0).report { EPOLLIN := true }) 0 [] trivial (by decide)
  have hrep : Session.Reported { conn := TcpServer.accepted 0 0 } { EPOLLIN := true } []
      (.accepted 0) := .of_succeeded (EpollFlags.reportable_read rfl) rfl trivial (Nat.zero_le _)
  exact ⟨_, ⟨⟨⟨rfl, rfl, hrep⟩, rfl, 0, rfl⟩, next_session (Session.step_read rfl hread) rfl⟩, rfl,
    rfl, rfl⟩

/-- The owner may close the connection after a read event; if the connection has a timer, the
assertion holds and the process ends after it. -/
theorem assertion_holds_iff_readEvent :
    (∃ s : TimedSession,
      Path (system .waiting 0) { session := { conn := TcpServer.accepted 0 0 } } [readEvent] s ∧
      (∀ data, s.asserted 0 (.session .activeClose) = some data → data = some 0) ∧
      s.next .waiting 0 (.session .activeClose) ≠ none) ∧
    ∃ s : TimedSession, Path (system .waiting 0) { session := { conn := TcpServer.accepted 0 0 } }
        [.addOneTask, readEvent] s ∧
      (∀ data, s.asserted 0 (.session .activeClose) = some data → data = some 0) ∧
      s.next .waiting 0 (.session .activeClose) = none := by
  constructor
  · obtain ⟨s, hs, hclose, hhandlers, -⟩ := path_readEvent false []
    have hp : Path (system .waiting 0) { session := { conn := TcpServer.accepted 0 0 } }
        [readEvent] s := .cons hs (.nil _)
    have hiff := assertion_holds_iff hp hclose
    refine ⟨s, hp, hiff.1.mpr fun _ => rfl, hiff.2.mpr ⟨fun _ => rfl, fun hterm => ?_⟩⟩
    rw [Terminates, hhandlers] at hterm
    cases hterm.1
  · obtain ⟨s, hs, hclose, hhandlers, hb⟩ := path_readEvent true [false]
    have hp : Path (system .waiting 0) { session := { conn := TcpServer.accepted 0 0 } }
        [.addOneTask, readEvent] s := .cons ⟨rfl, rfl⟩ (.cons hs (.nil _))
    have hiff := assertion_holds_iff hp hclose
    refine ⟨s, hp, hiff.1.mpr fun _ => rfl, ?_⟩
    by_contra hne
    exact (hiff.2.mp hne).2 ⟨hhandlers, rfl, hb⟩

/-- A task that runs before any data has arrived closes the connection. -/
theorem close_before_data : ∃ s : TimedSession,
    Path (system .waiting 0) { session := { conn := TcpServer.accepted 0 0 } }
      [.addOneTask, .startTask 0] s ∧ s.Legal (.session .activeClose) ∧
      s.asserted 0 (.session .activeClose) = some none ∧
      s.next .waiting 0 (.session .activeClose) = none :=
  ⟨{ session := { conn := TcpServer.accepted 0 0 }, inTask := true, handlers := true },
    .cons ⟨rfl, rfl⟩ (.cons ⟨⟨Nat.one_pos, rfl, rfl⟩, rfl⟩ (.nil _)), rfl, rfl, rfl⟩

end TimedSession

end Dagger
