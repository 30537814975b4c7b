import Dagger.Effect
import Dagger.Transition

/-! # Runs of one connection

A `Session` is a connection together with what runs on its loop's thread and what the kernel
knows of its socket.  An `Action` is a call of the user, the handling of one event, the
return of a user callback or a change on the kernel's side; the calls that a user callback
makes are actions between its start and its return.  Only `connCloseCallback_` has no such
interval: it is recorded, and assumed to make no calls on the connection it is about to lose
(`CloseCalls.lean` drops the assumption).

`step` runs the code of the source.  `Action.Legal` says what the kernel may report and that
nothing is done with a connection after `destroy()`. -/

namespace Dagger

open TcpConnection Relation

/-- What has become of `::connect`; an accepted socket is connected from the start. -/
inductive Attempt where
  | pending
  | succeeded
  | failed
deriving DecidableEq, Repr

structure Session where
  conn : TcpConnection
  control : Control := .loop
  attempt : Attempt := .succeeded
  /-- An error is pending on the socket. -/
  soError : Bool := false

inductive Action where
  | send (str : List Byte)
  | activeClose
  /-- `handle()` for a report of epoll, with the results its system calls meet. -/
  | event (revents : EpollFlags) (timeInProcess : UInt32) (script : List ReadResult)
      (write : WriteResult)
  /-- The user callback that is running returns. -/
  | ret
  /-- The connect attempt ends; a failure leaves its error pending. -/
  | resolve (ok : Bool)
  /-- A connected socket meets an error. -/
  | reset

/-- One of the reads that a call of `readFromSocket` makes reports an error of the socket. -/
def Buffer.readsError : ℕ → List ReadResult → Bool
  | maxBytes, .data bs :: script => bs.length = maxBytes && readsError (maxBytes * 2) script
  | _, .error e :: _ => readError e < 0
  | _, [] => false

namespace Session

/-- `Event::handle()`. -/
def handle (source : TcpSource) (l : LoopId) (revents : EpollFlags) (timeInProcess : UInt32)
    (script : List ReadResult) (write : WriteResult) (s : Session) : Option Session :=
  let c := s.conn.report revents
  match c.event.handle with
  | none => some { s with conn := c }
  | some .preConnMsgCallback => do
      let (conn, control) ← source.preConnMsgCallback l timeInProcess script c
      some { s with conn, control, soError := s.soError && !Buffer.readsError 4096 script }
  | some .sendNonblock => do
      let conn ← c.sendNonblock source l write
      some { s with conn }
  | some .connectCallback => do
      let (conn, control) ← source.connectCallback l s.soError c
      some { s with conn, control, soError := false }

def step (source : TcpSource) (l : LoopId) (s : Session) : Action → Option Session
  | .send str => do
      let conn ← s.conn.sendStr str
      some { s with conn }
  | .activeClose => do
      let conn ← s.conn.activeClose source l
      some { s with conn }
  | .event revents timeInProcess script write =>
      s.handle source l revents timeInProcess script write
  | .ret => do
      let conn ← source.callbackReturned l s.control s.conn
      some { s with conn, control := .loop }
  | .resolve ok => some { s with attempt := if ok then .succeeded else .failed, soError := !ok }
  | .reset => some { s with soError := true }

/-- What the kernel may report for the socket of `s`, and its answers to the calls that
follow.  Nothing is reported before the attempt has ended; a failed attempt is reported by
the first read, later reads meet the end of the file or an error. -/
structure Reported (s : Session) (revents : EpollFlags) (script : List ReadResult)
    (write : WriteResult) : Prop where
  interest : s.conn.event.events.Reportable revents
  resolved : s.attempt ≠ .pending
  deliverable : Buffer.Deliverable 4096 script
  failed : s.attempt = .failed → ∃ r rest, script = r :: rest ∧
    ((r = .data [] ∧ s.soError = false) ∨ ∃ e, r = .error e ∧ Buffer.readError e < 0)
  written : write.Possible s.conn.writeBuffer.bytes.length

/-- A read completes a message in this step. -/
def DeliversMessage (codec : ValidBuffer IO_BUFFER_SIZE → Bool × ValidBuffer IO_BUFFER_SIZE)
    (s : Session) : Action → Prop
  | .event revents _ script _ =>
      (s.conn.report revents).event.handle = some .preConnMsgCallback ∧
        0 < Buffer.readReturn script ∧
        ∃ readBuffer, s.conn.readBuffer.readFromSocket script 4096 =
          some (readBuffer, Buffer.readReturn script) ∧ (codec readBuffer).1 = true
  | _ => False

end Session

/-- The user's side of the interface, and the kernel's. -/
def Action.Legal (s : Session) : Action → Prop
  | .send str => s.conn.destroys = 0 ∧ str ≠ []
  | .activeClose => s.conn.destroys = 0
  | .event revents _ script write =>
      s.conn.destroys = 0 ∧ s.control = .loop ∧ s.Reported revents script write
  | .ret => s.conn.destroys = 0 ∧ s.control ≠ .loop
  | .resolve _ => s.attempt = .pending
  | .reset => s.attempt = .succeeded

/-- The runs that start in one of `Init`, on the thread of loop `l`. -/
def Session.system (source : TcpSource) (l : LoopId) (Init : Session → Prop) :
    Transition.System Session Action where
  Init := Init
  Step s a t := a.Legal s ∧ s.step source l a = some t

/-- The connection that `acceptCallback` hands to its loop. -/
def TcpServer.accepted (l : LoopId) (lastReceiveTime : UInt32) : TcpConnection where
  event := (Event.setReadCallback {} .preConnMsgCallback).setReadable true
  loop := l
  lastReceiveTime := lastReceiveTime

/-- The connection that `connect` returns. -/
def TcpClient.connecting (l : LoopId) : TcpConnection where
  event := (((Event.setReadCallback {} .preConnMsgCallback).setReadable true).setWriteCallback
    .connectCallback).setWritable true
  state := .BLANK
  loop := l

/-- Runs of a connection that a server has accepted. -/
def TcpServer.runs (server : TcpServer) (l : LoopId) : Transition.System Session Action :=
  Session.system server.source l (fun s => ∃ time, s = { conn := accepted l time })

/-- Runs of a connection that `TcpClient::connect` has returned.  `::connect` may have failed at
once, which `Socket::connect` only logs: no error is pending on the socket then. -/
def TcpClient.runs (client : TcpClient) (l : LoopId) : Transition.System Session Action :=
  Session.system client.source l
    (fun s => ∃ attempt : Attempt, attempt ≠ .succeeded ∧ s = { conn := connecting l, attempt })

/-! ### The event of a connection -/

/-- The event asks for nothing but reads and writes, its read callback is the source's, and
the read callback is not in the write slot. -/
structure TcpConnection.Wired (c : TcpConnection) : Prop where
  plain : c.event.Plain
  readCallback : c.event.readCallback = some .preConnMsgCallback
  writeCallback : c.event.writeCallback ≠ some .preConnMsgCallback

variable {closeCallback erase connects : Bool} {c c' : TcpConnection} {source : TcpSource}
  {l : LoopId} {s t : Session} {a : Action}

namespace TcpConnection

theorem Wired.wantWrite {e : Event Callback} (h : Wired { c with event := e }) :
    Wired { c with event := e.wantWrite } where
  plain := h.plain.wantWrite
  readCallback := e.readCallback_wantWrite.trans h.readCallback
  writeCallback := by
    show e.wantWrite.writeCallback ≠ _
    rw [Event.writeCallback_wantWrite]
    split_ifs
    · exact h.writeCallback
    · decide

theorem Wired.queue (h : c.Wired) (str : List Byte) : (c.queue str).Wired :=
  have hw : Wired { c with event := c.event.wantWrite } := wantWrite h
  ⟨hw.plain, hw.readCallback, hw.writeCallback⟩

theorem Wired.established (h : c.Wired) : (TcpClient.established c).Wired :=
  ⟨h.plain.setWritable, h.readCallback, h.writeCallback⟩

theorem Wired.report (h : c.Wired) (flags : EpollFlags) : (c.report flags).Wired :=
  ⟨h.plain.setRevents, h.readCallback, h.writeCallback⟩

theorem Wired.effect (h : c.Wired) (he : Effect closeCallback erase c c') : c'.Wired := by
  cases he with
  | report flags => exact h.report flags
  | deferClose _ =>
      have hw : Wired { c with event := (c.event.setReadable false).wantWrite } :=
        wantWrite ⟨h.plain.setReadable, h.readCallback, h.writeCallback⟩
      exact ⟨hw.plain, hw.readCallback, hw.writeCallback⟩
  | flush => exact ⟨h.plain.setWritable, h.readCallback, h.writeCallback⟩
  | flushClose => exact ⟨h.plain.setWritable, h.readCallback, h.writeCallback⟩
  | _ => exact ⟨h.plain, h.readCallback, h.writeCallback⟩

end TcpConnection

/-! ### What a step can do -/

namespace Session

theorem step_send {str : List Byte} (h : str ≠ []) :
    s.step source l (.send str) = some { s with conn := s.conn.queue str } := by
  simp only [step, sendStr_eq h, Option.bind_eq_bind, Option.bind_some]

/-- A report on a connected socket. -/
theorem Reported.of_succeeded {revents : EpollFlags} {script : List ReadResult} {n : ℕ}
    (hi : s.conn.event.events.Reportable revents) (ha : s.attempt = .succeeded)
    (hd : Buffer.Deliverable 4096 script) (hn : n ≤ s.conn.writeBuffer.bytes.length) :
    s.Reported revents script (.accepted n) where
  interest := hi
  resolved := by rw [ha]; decide
  deliverable := hd
  failed hf := by rw [ha] at hf; cases hf
  written := hn

/-- A report that something can be read may be handled on a connected socket. -/
theorem legal_read {time : UInt32} {script : List ReadResult} (hd : s.conn.destroys = 0)
    (hctl : s.control = .loop) (ha : s.attempt = .succeeded)
    (hr : s.conn.event.events.EPOLLIN = true) (hs : Buffer.Deliverable 4096 script) :
    (Action.event { EPOLLIN := true } time script (.accepted 0)).Legal s :=
  ⟨hd, hctl, .of_succeeded (EpollFlags.reportable_read hr) ha hs (Nat.zero_le _)⟩

/-- A report that the socket takes something, and a write that hands `n` bytes to it. -/
theorem legal_write {time : UInt32} {script : List ReadResult} {n : ℕ} (hd : s.conn.destroys = 0)
    (hctl : s.control = .loop) (ha : s.attempt = .succeeded)
    (hw : s.conn.event.events.EPOLLOUT = true) (hs : Buffer.Deliverable 4096 script)
    (hn : n ≤ s.conn.writeBuffer.bytes.length) :
    (Action.event { EPOLLOUT := true } time script (.accepted n)).Legal s :=
  ⟨hd, hctl, .of_succeeded (EpollFlags.reportable_write hw) ha hs hn⟩

theorem step_activeClose (h : s.conn.activeClose source l = some c') :
    s.step source l .activeClose = some { s with conn := c' } := by
  simp only [step, h, Option.bind_eq_bind, Option.bind_some]

theorem step_ret (h : source.callbackReturned l s.control s.conn = some c') :
    s.step source l .ret = some { s with conn := c', control := .loop } := by
  simp only [step, h, Option.bind_eq_bind, Option.bind_some]

section event
variable {revents : EpollFlags} {time : UInt32} {script : List ReadResult} {write : WriteResult}
  {control : Control}

theorem step_read (hh : (s.conn.report revents).event.handle = some .preConnMsgCallback)
    (h : source.preConnMsgCallback l time script (s.conn.report revents) = some (c', control)) :
    s.step source l (.event revents time script write) =
      some { s with
        conn := c'
        control := control
        soError := s.soError && !Buffer.readsError 4096 script } := by
  simp only [step, handle, hh, h, Option.bind_eq_bind, Option.bind_some]

theorem step_write (hh : (s.conn.report revents).event.handle = some .sendNonblock)
    (h : (s.conn.report revents).sendNonblock source l write = some c') :
    s.step source l (.event revents time script write) = some { s with conn := c' } := by
  simp only [step, handle, hh, h, Option.bind_eq_bind, Option.bind_some]

theorem step_connect (hh : (s.conn.report revents).event.handle = some .connectCallback)
    (h : source.connectCallback l s.soError (s.conn.report revents) = some (c', control)) :
    s.step source l (.event revents time script write) =
      some { s with conn := c', control := control, soError := false } := by
  simp only [step, handle, hh, h, Option.bind_eq_bind, Option.bind_some]

/-- An event runs nothing, or one callback that its interest mask asks for. -/
theorem event_cases (hw : s.conn.Wired) (hi : s.conn.event.events.Reportable revents)
    (h : s.step source l (.event revents time script write) = some t) :
    ((s.conn.report revents).event.handle = none ∧ t = { s with conn := s.conn.report revents }) ∨
    ((s.conn.report revents).event.handle = some .preConnMsgCallback ∧
      source.preConnMsgCallback l time script (s.conn.report revents) = some (t.conn, t.control) ∧
      t.attempt = s.attempt ∧ t.soError = (s.soError && !Buffer.readsError 4096 script)) ∨
    ((s.conn.report revents).event.handle = some .sendNonblock ∧
      s.conn.event.isWritable = true ∧ s.conn.event.writeCallback = some .sendNonblock ∧
      (s.conn.report revents).sendNonblock source l write = some t.conn ∧
      t = { s with conn := t.conn }) ∨
    ((s.conn.report revents).event.handle = some .connectCallback ∧
      s.conn.event.isWritable = true ∧ s.conn.event.writeCallback = some .connectCallback ∧
      source.connectCallback l s.soError (s.conn.report revents) = some (t.conn, t.control) ∧
      t.attempt = s.attempt) := by
  cases hh : (s.conn.report revents).event.handle with
  | none =>
      simp only [step, handle, hh, Option.some.injEq] at h
      exact Or.inl ⟨rfl, h.symm⟩
  | some callback =>
      have hcase := Event.handle_cases hw.plain hi hh
      have hslot : callback ≠ .preConnMsgCallback →
          s.conn.event.isWritable = true ∧ s.conn.event.writeCallback = some callback := by
        intro hne
        rcases hcase with ⟨-, hcb⟩ | hcb
        · rw [hw.readCallback] at hcb
          exact absurd (Option.some.inj hcb).symm hne
        · exact hcb
      cases callback with
      | preConnMsgCallback =>
          simp only [step, handle, hh] at h
          obtain ⟨⟨conn, control⟩, hc, h⟩ := Option.bind_eq_some_iff.mp h
          obtain rfl := Option.some.inj h
          exact Or.inr (Or.inl ⟨rfl, hc, rfl, rfl⟩)
      | sendNonblock =>
          simp only [step, handle, hh] at h
          obtain ⟨conn, hc, h⟩ := Option.bind_eq_some_iff.mp h
          obtain rfl := Option.some.inj h
          obtain ⟨hwr, hcb⟩ := hslot (by decide)
          exact Or.inr (Or.inr (Or.inl ⟨rfl, hwr, hcb, hc, rfl⟩))
      | connectCallback =>
          simp only [step, handle, hh] at h
          obtain ⟨⟨conn, control⟩, hc, h⟩ := Option.bind_eq_some_iff.mp h
          obtain rfl := Option.some.inj h
          obtain ⟨hwr, hcb⟩ := hslot (by decide)
          exact Or.inr (Or.inr (Or.inr ⟨rfl, hwr, hcb, hc, rfl⟩))

end event

/-- Apart from `send` and the client's connect callback a step makes effects only. -/
theorem step_cases (hsrc : source.Regular closeCallback erase connects) (hw : s.conn.Wired)
    (hl : a.Legal s) (h : s.step source l a = some t) :
    (∃ str, a = .send str ∧ str ≠ [] ∧ t = { s with conn := s.conn.queue str }) ∨
    ((∀ str, a ≠ .send str) ∧ Effects closeCallback erase s.conn t.conn) ∨
    (∃ revents time script write, a = .event revents time script write ∧
      (s.conn.report revents).event.handle = some .connectCallback ∧
      source.connectCallback l s.soError (s.conn.report revents) = some (t.conn, t.control)) ∨
    (a = .ret ∧ source.callbackReturned l s.control s.conn = some t.conn ∧ t.control = .loop) := by
  cases a with
  | send str =>
      rw [step_send hl.2] at h
      exact Or.inl ⟨str, rfl, hl.2, (Option.some.inj h).symm⟩
  | activeClose =>
      obtain ⟨conn, hc, h⟩ := Option.bind_eq_some_iff.mp h
      obtain rfl := Option.some.inj h
      refine Or.inr (Or.inl ⟨fun _ => Action.noConfusion, ?_⟩)
      exact .single (closeWith_effect (hsrc.closeConnection hc))
  | ret =>
      obtain ⟨conn, hc, h⟩ := Option.bind_eq_some_iff.mp h
      obtain rfl := Option.some.inj h
      exact Or.inr (Or.inr (Or.inr ⟨rfl, hc, rfl⟩))
  | resolve ok =>
      obtain rfl := Option.some.inj h
      exact Or.inr (Or.inl ⟨fun _ => Action.noConfusion, .refl⟩)
  | reset =>
      obtain rfl := Option.some.inj h
      exact Or.inr (Or.inl ⟨fun _ => Action.noConfusion, .refl⟩)
  | event revents time script write =>
      obtain ⟨hd, hctl, hrep⟩ := hl
      have hr : Effect closeCallback erase s.conn (s.conn.report revents) := .report revents _
      rcases event_cases hw hrep.interest h with
        ⟨-, rfl⟩ | ⟨-, hc, -⟩ | ⟨-, -, hcb, hc, -⟩ | ⟨hh, -, -, hc, -⟩
      · exact Or.inr (Or.inl ⟨fun _ => Action.noConfusion, .single hr⟩)
      · refine Or.inr (Or.inl ⟨fun _ => Action.noConfusion, ?_⟩)
        exact .head hr (hsrc.preConnMsgCallback hc).effects
      · refine Or.inr (Or.inl ⟨fun _ => Action.noConfusion, .head hr ?_⟩)
        exact sendNonblock_effects hsrc hcb hrep.written hc
      · exact Or.inr (Or.inr (Or.inl ⟨revents, time, script, write, rfl, hh, hc⟩))

end Session

/-- A server that waits for more data after every read, and has no callbacks. -/
def TcpServer.waiting : TcpServer := ⟨fun b => (false, b), false, false, false⟩

/-- A client that waits for more data after every read, and has no callbacks. -/
def TcpClient.waiting : TcpClient := ⟨fun b => (false, b), false, false, false⟩

theorem TcpServer.waiting_read (l : LoopId) (c : TcpConnection) {time : UInt32}
    {script : List ReadResult} (hd : Buffer.Deliverable 4096 script)
    (hpos : 0 < Buffer.readReturn script) :
    ∃ readBuffer : ValidBuffer IO_BUFFER_SIZE, waiting.preConnMsgCallback l time script c =
      some ({ c with data := some l, readBuffer }, .loop) := by
  obtain ⟨readBuffer, -, h⟩ := @preConnMsgCallback_of_pos waiting l time script c hd hpos
  exact ⟨readBuffer, h⟩

end Dagger
