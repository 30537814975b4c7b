import Dagger.TcpConnection
import Mathlib.Logic.Relation

/-! # What an operation can do to a connection

`Effect` lists the changes that closing, flushing and reading make to a connection, and
`Effects` their sequences.  The operations of `TcpConnection.lean` are shown once to make no
other changes; invariants are proved of the effects.  `send` (`queue`) and the client's connect
callback are kept apart, since conditions are put on them. -/

namespace Dagger

open Relation

/-- What `send` leaves behind: writable events are asked for, and flush the buffer unless they
were asked for already. -/
def Event.wantWrite (e : Event Callback) : Event Callback :=
  if e.isWritable then e else (e.setWritable true).setWriteCallback .sendNonblock

namespace Event

variable {e : Event Callback}

@[simp] theorem isWritable_wantWrite : e.wantWrite.isWritable = true := by
  unfold wantWrite
  split_ifs with h
  · exact h
  · rfl

@[simp] theorem isReadable_wantWrite : e.wantWrite.isReadable = e.isReadable := by
  unfold wantWrite
  split_ifs <;> rfl

@[simp] theorem readCallback_wantWrite : e.wantWrite.readCallback = e.readCallback := by
  unfold wantWrite
  split_ifs <;> rfl

theorem writeCallback_wantWrite : e.wantWrite.writeCallback =
    if e.isWritable then e.writeCallback else some .sendNonblock := by
  unfold wantWrite
  split_ifs <;> rfl

theorem wantWrite_of_isWritable (h : e.isWritable = true) : e.wantWrite = e := if_pos h

theorem Plain.wantWrite (h : e.Plain) : e.wantWrite.Plain := by
  unfold Event.wantWrite
  split_ifs
  · exact h
  · exact h.setWritable.setWriteCallback

end Event

namespace TcpConnection

/-! ### The changes -/

/-- `send(str, len)` with something to send. -/
def queue (str : List Byte) (c : TcpConnection) : TcpConnection :=
  { c with
    writeBuffer := c.writeBuffer.append str
    sent := c.sent ++ str
    isWillClose := false
    event := c.event.wantWrite }

/-- `closeConnection` with unsent bytes. -/
def deferClose (c : TcpConnection) : TcpConnection :=
  { c with
    calls := c.calls ++ [.closeConnection]
    isWillClose := true
    event := (c.event.setReadable false).wantWrite }

/-- `closeConnection` with nothing to send. -/
def closeNow (closeCallback erase : Bool) (c : TcpConnection) : TcpConnection :=
  { c with
    calls := c.calls ++ .closeConnection :: if closeCallback then [.connCloseCallback] else []
    state := .CLOSED
    destroys := c.destroys + 1
    deletes := c.deletes + erase.toNat }

/-- The flags of a report are stored. -/
def report (flags : EpollFlags) (c : TcpConnection) : TcpConnection :=
  { c with event := c.event.setRevents flags }

/-- `n` bytes are handed to the socket and `rest` stays in the buffer. -/
def wrote (rest : ValidBuffer IO_BUFFER_SIZE) (n : ℕ) (c : TcpConnection) : TcpConnection :=
  { c with writeBuffer := rest, written := c.written ++ c.writeBuffer.bytes.take n }

/-- Writable events are no longer asked for. -/
def unwatch (c : TcpConnection) : TcpConnection := { c with event := c.event.setWritable false }

inductive Effect (closeCallback erase : Bool) : TcpConnection → TcpConnection → Prop
  | report (flags : EpollFlags) (c : TcpConnection) : Effect closeCallback erase c (c.report flags)
  | read (readBuffer : ValidBuffer IO_BUFFER_SIZE) (data : Option LoopId) (time : UInt32)
      (c : TcpConnection) :
      Effect closeCallback erase c { c with readBuffer, data, lastReceiveTime := time }
  | callback {call : Call} (c : TcpConnection) : call ≠ .closeConnection →
      call ≠ .connEstaCallback → Effect closeCallback erase c (c.log call)
  | deferClose {c : TcpConnection} : c.writeBuffer.bytes ≠ [] →
      Effect closeCallback erase c c.deferClose
  | close {c : TcpConnection} : c.writeBuffer.bytes = [] →
      Effect closeCallback erase c (c.closeNow closeCallback erase)
  | write {rest : ValidBuffer IO_BUFFER_SIZE} {n : ℕ} {c : TcpConnection} :
      c.event.writeCallback = some .sendNonblock → n < c.writeBuffer.bytes.length →
      rest.bytes = c.writeBuffer.bytes.drop n → Effect closeCallback erase c (c.wrote rest n)
  | flush {rest : ValidBuffer IO_BUFFER_SIZE} {c : TcpConnection} :
      c.event.writeCallback = some .sendNonblock → rest.bytes = [] → c.isWillClose = false →
      Effect closeCallback erase c (c.wrote rest c.writeBuffer.bytes.length).unwatch
  | flushClose {rest : ValidBuffer IO_BUFFER_SIZE} {c : TcpConnection} :
      c.event.writeCallback = some .sendNonblock → rest.bytes = [] → c.isWillClose = true →
      Effect closeCallback erase c
        ((c.wrote rest c.writeBuffer.bytes.length).unwatch.closeNow closeCallback erase)

abbrev Effects (closeCallback erase : Bool) : TcpConnection → TcpConnection → Prop :=
  ReflTransGen (Effect closeCallback erase)

/-- An invariant of the single effects is one of their sequences. -/
theorem Effects.invariant {closeCallback erase : Bool} {I : TcpConnection → Prop}
    (hI : ∀ c c', I c → Effect closeCallback erase c c' → I c') {c c' : TcpConnection}
    (h : Effects closeCallback erase c c') (hc : I c) : I c' := by
  induction h with
  | refl => exact hc
  | tail _ hs ih => exact hI _ _ ih hs

/-! ### The operations -/

variable {closeCallback erase : Bool} {c c' : TcpConnection}

theorem send_eq (isLast : Bool) (h : c.writeBuffer.bytes ≠ []) :
    c.send isLast = some { c with isWillClose := isLast, event := c.event.wantWrite } := by
  have hpos : 0 < c.writeBuffer.readableBytes := by
    rw [ValidBuffer.readableBytes_eq]
    exact List.length_pos_iff.mpr h
  unfold send Event.wantWrite
  rw [if_pos hpos]
  dsimp only
  split_ifs <;> rfl

theorem sendStr_eq {str : List Byte} (h : str ≠ []) : c.sendStr str = some (c.queue str) := by
  unfold sendStr
  rw [send_eq]
  · rfl
  · rw [ValidBuffer.bytes_append]
    exact List.append_ne_nil_of_right_ne_nil _ h

theorem bytes_queue_ne_nil {str : List Byte} (h : str ≠ []) :
    (c.queue str).writeBuffer.bytes ≠ [] := by
  show (c.writeBuffer.append str).bytes ≠ []
  rw [ValidBuffer.bytes_append]
  exact List.append_ne_nil_of_right_ne_nil _ h

theorem closeWith_of_unsent (h : c.writeBuffer.bytes ≠ []) :
    c.closeWith closeCallback erase = some c.deferClose := by
  have hpos : 0 < c.writeBuffer.readableBytes := by
    rw [ValidBuffer.readableBytes_eq]
    exact List.length_pos_iff.mpr h
  unfold closeWith
  dsimp only [log]
  rw [if_pos hpos]
  refine (send_eq true ?_).trans rfl
  exact h

theorem closeWith_of_empty (h : c.writeBuffer.bytes = []) :
    c.closeWith closeCallback erase = some (c.closeNow closeCallback erase) := by
  have hpos : ¬ 0 < c.writeBuffer.readableBytes := by
    rw [ValidBuffer.readableBytes_eq, h]
    exact Nat.lt_irrefl 0
  unfold closeWith
  dsimp only [log]
  rw [if_neg hpos]
  cases closeCallback <;> cases erase <;> simp [destroy, delete, closeNow]

/-- `closeConnection` defers the close or carries it out. -/
theorem closeWith_cases (h : c.closeWith closeCallback erase = some c') :
    (c.writeBuffer.bytes ≠ [] ∧ c' = c.deferClose) ∨
      (c.writeBuffer.bytes = [] ∧ c' = c.closeNow closeCallback erase) := by
  by_cases hb : c.writeBuffer.bytes = []
  · rw [closeWith_of_empty hb] at h
    exact Or.inr ⟨hb, (Option.some.inj h).symm⟩
  · rw [closeWith_of_unsent hb] at h
    exact Or.inl ⟨hb, (Option.some.inj h).symm⟩

theorem exists_closeWith (closeCallback erase : Bool) (c : TcpConnection) :
    ∃ c', c.closeWith closeCallback erase = some c' := by
  by_cases hb : c.writeBuffer.bytes = []
  · exact ⟨_, closeWith_of_empty hb⟩
  · exact ⟨_, closeWith_of_unsent hb⟩

theorem closeWith_effect (h : c.closeWith closeCallback erase = some c') :
    Effect closeCallback erase c c' := by
  obtain ⟨hb, rfl⟩ | ⟨hb, rfl⟩ := closeWith_cases h
  · exact .deferClose hb
  · exact .close hb

/-- `sendNonblock` hands over what `::write` accepted.  When nothing is left, writable events
are switched off and a deferred close is carried out. -/
theorem sendNonblock_eq {source : TcpSource} {l : LoopId} {n : ℕ}
    (hn : n ≤ c.writeBuffer.bytes.length) :
    ∃ rest : ValidBuffer IO_BUFFER_SIZE, rest.bytes = c.writeBuffer.bytes.drop n ∧
      c.sendNonblock source l (.accepted n) =
        if n < c.writeBuffer.bytes.length then some (c.wrote rest n)
        else if c.isWillClose then (c.wrote rest n).unwatch.activeClose source l
        else some (c.wrote rest n).unwatch := by
  obtain ⟨rest, p, e, hrest⟩ := ValidBuffer.retrieve_of_le hn
  refine ⟨rest, hrest, ?_⟩
  unfold sendNonblock
  simp only [WriteResult.size, e, Option.bind_eq_bind, Option.bind_some,
    ValidBuffer.readableBytes_eq]
  have hlen : rest.bytes.length = c.writeBuffer.bytes.length - n := by
    rw [hrest, List.length_drop]
  by_cases hlt : n < c.writeBuffer.bytes.length
  · rw [if_pos hlt, if_neg (by omega)]
    rfl
  · rw [if_neg hlt, if_pos (by omega)]
    rfl

/-- A write that leaves something. -/
theorem sendNonblock_part {source : TcpSource} {l : LoopId} {n : ℕ}
    (hn : n < c.writeBuffer.bytes.length) :
    ∃ rest : ValidBuffer IO_BUFFER_SIZE, rest.bytes = c.writeBuffer.bytes.drop n ∧
      c.sendNonblock source l (.accepted n) = some (c.wrote rest n) := by
  obtain ⟨rest, hrest, h⟩ := @sendNonblock_eq c source l n hn.le
  rw [if_pos hn] at h
  exact ⟨rest, hrest, h⟩

/-- A write that empties the buffer when a close is pending. -/
theorem sendNonblock_last {source : TcpSource} {l : LoopId} {n : ℕ}
    (hn : c.writeBuffer.bytes.length = n) (hwill : c.isWillClose = true) :
    ∃ rest : ValidBuffer IO_BUFFER_SIZE, rest.bytes = [] ∧
      c.sendNonblock source l (.accepted n) = (c.wrote rest n).unwatch.activeClose source l := by
  obtain ⟨rest, hrest, h⟩ := @sendNonblock_eq c source l n hn.ge
  rw [if_neg (by omega), if_pos hwill] at h
  refine ⟨rest, ?_, h⟩
  rw [hrest, ← hn, List.drop_length]

/-- A write that empties the buffer when no close is pending. -/
theorem sendNonblock_all {source : TcpSource} {l : LoopId} {n : ℕ}
    (hn : c.writeBuffer.bytes.length = n) (hwill : c.isWillClose = false) :
    ∃ rest : ValidBuffer IO_BUFFER_SIZE, rest.bytes = [] ∧
      c.sendNonblock source l (.accepted n) = some (c.wrote rest n).unwatch := by
  obtain ⟨rest, hrest, h⟩ := @sendNonblock_eq c source l n hn.ge
  rw [if_neg (by omega), if_neg (by rw [hwill]; exact Bool.false_ne_true)] at h
  refine ⟨rest, ?_, h⟩
  rw [hrest, ← hn, List.drop_length]

/-- A failed `::write` makes `retrieve` fail its assertion. -/
theorem sendNonblock_error {source : TcpSource} {l : LoopId} (e : Errno)
    (h : c.writeBuffer.bytes.length < SIZE_MAX) : c.sendNonblock source l (.error e) = none := by
  have hr : c.writeBuffer.retrieve (WriteResult.error e).size = none := ValidBuffer.retrieve_of_lt h
  unfold sendNonblock
  rw [hr]
  rfl

/-- What `sendNonblock` can do: some bytes are left, or a deferred close is carried out, or the
event just stops asking for writes. -/
theorem sendNonblock_cases {source : TcpSource} {l : LoopId} {write : WriteResult}
    (hwrite : write.Possible c.writeBuffer.bytes.length)
    (h : c.sendNonblock source l write = some c') :
    ∃ (n : ℕ) (rest : ValidBuffer IO_BUFFER_SIZE), write = .accepted n ∧
      rest.bytes = c.writeBuffer.bytes.drop n ∧
      ((n < c.writeBuffer.bytes.length ∧ c' = c.wrote rest n) ∨
        (n = c.writeBuffer.bytes.length ∧ c.isWillClose = true ∧
          (c.wrote rest n).unwatch.activeClose source l = some c') ∨
        (n = c.writeBuffer.bytes.length ∧ c.isWillClose = false ∧
          c' = (c.wrote rest n).unwatch)) := by
  cases write with
  | error e =>
      rw [sendNonblock_error e hwrite] at h
      cases h
  | accepted n =>
      have hn : n ≤ c.writeBuffer.bytes.length := hwrite
      obtain ⟨rest, hrest, he⟩ := @sendNonblock_eq c source l n hn
      rw [he] at h
      refine ⟨n, rest, rfl, hrest, ?_⟩
      split_ifs at h with hlt hwill
      · exact Or.inl ⟨hlt, (Option.some.inj h).symm⟩
      · exact Or.inr (Or.inl ⟨by omega, hwill, h⟩)
      · exact Or.inr (Or.inr ⟨by omega, Bool.not_eq_true _ ▸ hwill, (Option.some.inj h).symm⟩)

/-- What a read callback can do: after the read it stops, calls a user callback or closes. -/
def Reads (closeCallback erase : Bool) (c c' : TcpConnection) : Prop :=
  ∃ (readBuffer : ValidBuffer IO_BUFFER_SIZE) (data : Option LoopId) (time : UInt32),
    c' = { c with readBuffer, data, lastReceiveTime := time } ∨
    (∃ call, call ≠ .closeConnection ∧ call ≠ .connEstaCallback ∧
      c' = log { c with readBuffer, data, lastReceiveTime := time } call) ∨
    closeWith closeCallback erase { c with readBuffer, data, lastReceiveTime := time } = some c'

theorem Reads.effects (h : Reads closeCallback erase c c') : Effects closeCallback erase c c' := by
  obtain ⟨readBuffer, data, time, hc⟩ := h
  have hr : Effects closeCallback erase c { c with readBuffer, data, lastReceiveTime := time } :=
    .single (.read readBuffer data time c)
  rcases hc with rfl | ⟨call, hclose, hesta, rfl⟩ | hc
  · exact hr
  · exact hr.tail (.callback _ hclose hesta)
  · exact hr.tail (closeWith_effect hc)

end TcpConnection

open TcpConnection

/-! ### The sources -/

/-- The code of a source makes effects only, apart from connect callbacks (if it `connects`). -/
structure TcpSource.Regular (source : TcpSource) (closeCallback erase connects : Bool) : Prop where
  closeConnection : ∀ {l d c c'}, source.closeConnection l d c = some c' →
    c.closeWith closeCallback erase = some c'
  preConnMsgCallback : ∀ {l time script c c' control},
    source.preConnMsgCallback l time script c = some (c', control) →
      Reads closeCallback erase c c'
  connectCallback : ∀ {l error c c' control},
    source.connectCallback l error c = some (c', control) → connects = true ∧
      ((error = true ∧ control = .loop ∧ c.closeWith closeCallback erase = some c') ∨
        (error = false ∧ control = .connEstaCallback ∧ c' = c.log .connEstaCallback) ∨
        (error = false ∧ control = .loop ∧ c' = TcpClient.established c))
  callbackReturned : ∀ {l control c c'}, source.callbackReturned l control c = some c' →
    c' = c ∨
      (control = .connErrorCallback ∧ c.closeWith closeCallback erase = some c') ∨
      (connects = true ∧ control = .connEstaCallback ∧ c' = TcpClient.established c)

/-- Flushing with a legal result of `::write` is one effect. -/
theorem TcpConnection.sendNonblock_effects {source : TcpSource}
    {closeCallback erase connects : Bool} {l : LoopId} {write : WriteResult} {c c' : TcpConnection}
    (hsrc : source.Regular closeCallback erase connects)
    (hcb : c.event.writeCallback = some .sendNonblock)
    (hwrite : write.Possible c.writeBuffer.bytes.length)
    (h : c.sendNonblock source l write = some c') : Effects closeCallback erase c c' := by
  obtain ⟨n, rest, -, hrest, ⟨hlt, rfl⟩ | ⟨rfl, hwill, hc⟩ | ⟨rfl, hwill, rfl⟩⟩ :=
    sendNonblock_cases hwrite h
  · exact .single (.write hcb hlt hrest)
  all_goals rw [List.drop_length] at hrest
  · have hclose := hsrc.closeConnection hc
    rw [closeWith_of_empty hrest] at hclose
    rw [← Option.some.inj hclose]
    exact .single (.flushClose hcb hrest hwill)
  · exact .single (.flush hcb hrest hwill)

namespace TcpServer

variable {server : TcpServer} {l : LoopId} {d : Bool} {time : UInt32} {script : List ReadResult}
  {c c' : TcpConnection} {control : Control}

theorem closeConnection_eq (h : server.closeConnection l d c = some c') :
    c.closeWith server.connCloseCallback (!server.idleConnectionsManager) = some c' := by
  unfold closeConnection at h
  split_ifs at h
  exact h

/-- On the owner's thread the assertion holds. -/
theorem activeClose_of_owner (hdata : c.data = some l) (hd : c.destoryCallback = false) :
    c.activeClose server.source l =
      c.closeWith server.connCloseCallback (!server.idleConnectionsManager) :=
  if_pos ⟨hdata, hd⟩

/-- A read that meets no error and no end of file ends in the codec's check. -/
theorem preConnMsgCallback_of_pos (hd : Buffer.Deliverable 4096 script)
    (hpos : 0 < Buffer.readReturn script) :
    ∃ readBuffer : ValidBuffer IO_BUFFER_SIZE,
      readBuffer.bytes = c.readBuffer.bytes ++ Buffer.received 4096 script ∧
      server.preConnMsgCallback l time script c = some (checkMsg server.codec
        { c with
          data := some l
          readBuffer
          lastReceiveTime :=
            if server.idleConnectionsManager then time else c.lastReceiveTime }) := by
  obtain ⟨readBuffer, e, hr⟩ := ValidBuffer.readFromSocket_of_deliverable (b := c.readBuffer) hd
  have hzero : Buffer.readReturn script ≠ 0 := by omega
  have hneg : ¬ Buffer.readReturn script < 0 := by omega
  refine ⟨readBuffer, hr, ?_⟩
  unfold preConnMsgCallback
  simp only [e, Option.bind_eq_bind, Option.bind_some, if_neg hzero, if_neg hneg]
  split_ifs <;> rfl

/-- A read that meets the end of the file or an error with nothing to send destroys the
connection. -/
theorem preConnMsgCallback_of_nonpos (hd : Buffer.Deliverable 4096 script)
    (hn : Buffer.readReturn script ≤ 0) (hb : c.writeBuffer.bytes = []) :
    ∃ readBuffer : ValidBuffer IO_BUFFER_SIZE, server.preConnMsgCallback l time script c =
      some (closeNow server.connCloseCallback (!server.idleConnectionsManager)
        { c with data := some l, readBuffer }, .loop) := by
  obtain ⟨readBuffer, e, -⟩ := ValidBuffer.readFromSocket_of_deliverable (b := c.readBuffer) hd
  have hclose : server.closeConnection l false { c with data := some l, readBuffer } =
      some (closeNow server.connCloseCallback (!server.idleConnectionsManager)
        { c with data := some l, readBuffer }) := by
    unfold closeConnection
    rw [if_pos ⟨rfl, rfl⟩]
    exact closeWith_of_empty hb
  refine ⟨readBuffer, ?_⟩
  unfold preConnMsgCallback
  simp only [e, hclose, Option.bind_eq_bind, Option.bind_some]
  split_ifs
  · rfl
  · rfl
  · omega
  · omega

/-- The ways in which a read ends: the close, not enough data, a message. -/
theorem preConnMsgCallback_cases
    (h : server.preConnMsgCallback l time script c = some (c', control)) :
    ∃ (readBuffer : ValidBuffer IO_BUFFER_SIZE) (n : ℤ) (last : UInt32),
      c.readBuffer.readFromSocket script 4096 = some (readBuffer, n) ∧
      ((n ≤ 0 ∧ control = .loop ∧
          closeWith server.connCloseCallback (!server.idleConnectionsManager)
            { c with data := some l, readBuffer } = some c') ∨
        (0 < n ∧ (server.codec readBuffer).1 = false ∧ control = .loop ∧ c' =
          { c with
            data := some l
            readBuffer := (server.codec readBuffer).2
            lastReceiveTime := last }) ∨
        (0 < n ∧ (server.codec readBuffer).1 = true ∧ control = .connMsgCallback ∧ c' = log
          { c with
            data := some l
            readBuffer := (server.codec readBuffer).2
            lastReceiveTime := last } .connMsgCallback)) := by
  unfold preConnMsgCallback at h
  simp only [Option.bind_eq_bind, Option.bind_eq_some_iff] at h
  obtain ⟨⟨readBuffer, n⟩, hr, h⟩ := h
  refine ⟨readBuffer, n, if server.idleConnectionsManager then time else c.lastReceiveTime, hr, ?_⟩
  by_cases hn : n ≤ 0
  · refine Or.inl ⟨hn, ?_⟩
    have hclose : (do
        let c ← server.closeConnection l false { c with data := some l, readBuffer }
        some (c, Control.loop)) = some (c', control) := by
      split_ifs at h with hzero hneg
      · exact h
      · exact h
      · omega
      · omega
    obtain ⟨c₁, h1, h⟩ := Option.bind_eq_some_iff.mp hclose
    obtain ⟨rfl, rfl⟩ := Prod.mk.inj (Option.some.inj h)
    exact ⟨rfl, closeConnection_eq h1⟩
  · have hpos : 0 < n := by omega
    have hcheck : checkMsg server.codec
        { c with
          data := some l
          readBuffer
          lastReceiveTime := if server.idleConnectionsManager then time else c.lastReceiveTime } =
        (c', control) := by
      rw [if_neg (by omega), if_neg (by omega)] at h
      rw [← Option.some.inj h]
      split_ifs <;> rfl
    generalize (if server.idleConnectionsManager then time else c.lastReceiveTime) = last
      at hcheck ⊢
    unfold checkMsg at hcheck
    dsimp only at hcheck
    split_ifs at hcheck with hready
    · obtain ⟨rfl, rfl⟩ := Prod.mk.inj hcheck
      exact Or.inr (Or.inr ⟨hpos, hready, rfl, rfl⟩)
    · obtain ⟨rfl, rfl⟩ := Prod.mk.inj hcheck
      exact Or.inr (Or.inl ⟨hpos, Bool.not_eq_true _ ▸ hready, rfl, rfl⟩)

theorem preConnMsgCallback_reads
    (h : server.preConnMsgCallback l time script c = some (c', control)) :
    Reads server.connCloseCallback (!server.idleConnectionsManager) c c' := by
  obtain ⟨readBuffer, n, last, -, hcase⟩ := preConnMsgCallback_cases h
  rcases hcase with ⟨-, -, hc⟩ | ⟨-, -, -, rfl⟩ | ⟨-, -, -, rfl⟩
  · exact ⟨readBuffer, some l, c.lastReceiveTime, Or.inr (Or.inr hc)⟩
  · exact ⟨_, some l, last, Or.inl rfl⟩
  · exact ⟨_, some l, last, Or.inr (Or.inl ⟨.connMsgCallback, by decide, by decide, rfl⟩)⟩

theorem source_regular (server : TcpServer) :
    server.source.Regular server.connCloseCallback (!server.idleConnectionsManager) false where
  closeConnection := closeConnection_eq
  preConnMsgCallback := preConnMsgCallback_reads
  connectCallback h := by cases h
  callbackReturned h := Or.inl (Option.some.inj h).symm

end TcpServer

namespace TcpClient

variable {client : TcpClient} {l : LoopId} {d error : Bool} {script : List ReadResult}
  {c c' : TcpConnection} {control : Control}

theorem closeConnection_eq (h : client.closeConnection d c = some c') :
    c.closeWith client.connCloseCallback true = some c' := by
  unfold closeConnection at h
  split_ifs at h
  exact h

/-- A read that meets no error and no end of file ends in the codec's check. -/
theorem preConnMsgCallback_of_pos (hd : Buffer.Deliverable 4096 script)
    (hpos : 0 < Buffer.readReturn script) :
    ∃ readBuffer : ValidBuffer IO_BUFFER_SIZE,
      readBuffer.bytes = c.readBuffer.bytes ++ Buffer.received 4096 script ∧
      client.preConnMsgCallback script c = some (checkMsg client.codec { c with readBuffer }) := by
  obtain ⟨readBuffer, e, hr⟩ := ValidBuffer.readFromSocket_of_deliverable (b := c.readBuffer) hd
  have hzero : Buffer.readReturn script ≠ 0 := by omega
  have hneg : ¬ Buffer.readReturn script < 0 := by omega
  refine ⟨readBuffer, hr, ?_⟩
  unfold preConnMsgCallback
  simp only [e, Option.bind_eq_bind, Option.bind_some, if_neg hzero, if_neg hneg]

/-- A read that meets an error calls the error callback, if there is one. -/
theorem preConnMsgCallback_of_neg (hset : client.connErrorCallback = true)
    (hd : Buffer.Deliverable 4096 script) (hneg : Buffer.readReturn script < 0) :
    ∃ readBuffer : ValidBuffer IO_BUFFER_SIZE, client.preConnMsgCallback script c =
      some (log { c with readBuffer } .connErrorCallback, .connErrorCallback) := by
  obtain ⟨readBuffer, e, -⟩ := ValidBuffer.readFromSocket_of_deliverable (b := c.readBuffer) hd
  have hzero : Buffer.readReturn script ≠ 0 := by omega
  refine ⟨readBuffer, ?_⟩
  unfold preConnMsgCallback
  simp only [e, Option.bind_eq_bind, Option.bind_some, if_neg hzero, if_pos hneg, if_pos hset]

/-- The ways in which a read ends: the close, the error callback, not enough data, a message. -/
theorem preConnMsgCallback_cases (h : client.preConnMsgCallback script c = some (c', control)) :
    ∃ (readBuffer : ValidBuffer IO_BUFFER_SIZE) (n : ℤ),
      c.readBuffer.readFromSocket script 4096 = some (readBuffer, n) ∧
      (((n = 0 ∨ (n < 0 ∧ client.connErrorCallback = false)) ∧ control = .loop ∧
          closeWith client.connCloseCallback true { c with readBuffer } = some c') ∨
        (n < 0 ∧ client.connErrorCallback = true ∧ control = .connErrorCallback ∧
          c' = log { c with readBuffer } .connErrorCallback) ∨
        (0 < n ∧ (client.codec readBuffer).1 = false ∧ control = .loop ∧
          c' = { c with readBuffer := (client.codec readBuffer).2 }) ∨
        (0 < n ∧ (client.codec readBuffer).1 = true ∧ control = .connMsgCallback ∧
          c' = log { c with readBuffer := (client.codec readBuffer).2 } .connMsgCallback)) := by
  unfold preConnMsgCallback at h
  simp only [Option.bind_eq_bind, Option.bind_eq_some_iff] at h
  obtain ⟨⟨readBuffer, n⟩, hr, h⟩ := h
  refine ⟨readBuffer, n, hr, ?_⟩
  split_ifs at h with hzero hneg herr
  · obtain ⟨c₁, h1, h⟩ := Option.bind_eq_some_iff.mp h
    obtain ⟨rfl, rfl⟩ := Prod.mk.inj (Option.some.inj h)
    exact Or.inl ⟨Or.inl hzero, rfl, closeConnection_eq h1⟩
  · obtain ⟨rfl, rfl⟩ := Prod.mk.inj (Option.some.inj h)
    exact Or.inr (Or.inl ⟨hneg, herr, rfl, rfl⟩)
  · obtain ⟨c₁, h1, h⟩ := Option.bind_eq_some_iff.mp h
    obtain ⟨rfl, rfl⟩ := Prod.mk.inj (Option.some.inj h)
    exact Or.inl ⟨Or.inr ⟨hneg, Bool.not_eq_true _ ▸ herr⟩, rfl, closeConnection_eq h1⟩
  · have hpos : 0 < n := by omega
    unfold checkMsg at h
    dsimp only at h
    split_ifs at h with hready
    · obtain ⟨rfl, rfl⟩ := Prod.mk.inj (Option.some.inj h)
      exact Or.inr (Or.inr (Or.inr ⟨hpos, hready, rfl, rfl⟩))
    · obtain ⟨rfl, rfl⟩ := Prod.mk.inj (Option.some.inj h)
      exact Or.inr (Or.inr (Or.inl ⟨hpos, Bool.not_eq_true _ ▸ hready, rfl, rfl⟩))

theorem preConnMsgCallback_reads (h : client.preConnMsgCallback script c = some (c', control)) :
    Reads client.connCloseCallback true c c' := by
  obtain ⟨readBuffer, n, -, hcase⟩ := preConnMsgCallback_cases h
  rcases hcase with ⟨-, -, hc⟩ | ⟨-, -, -, rfl⟩ | ⟨-, -, -, rfl⟩ | ⟨-, -, -, rfl⟩
  · exact ⟨readBuffer, c.data, c.lastReceiveTime, Or.inr (Or.inr hc)⟩
  · exact ⟨readBuffer, c.data, c.lastReceiveTime,
      Or.inr (Or.inl ⟨.connErrorCallback, by decide, by decide, rfl⟩)⟩
  · exact ⟨_, c.data, c.lastReceiveTime, Or.inl rfl⟩
  · exact ⟨_, c.data, c.lastReceiveTime,
      Or.inr (Or.inl ⟨.connMsgCallback, by decide, by decide, rfl⟩)⟩

theorem connectCallback_cases (h : client.connectCallback error c = some (c', control)) :
    (error = true ∧ control = .loop ∧ c.closeWith client.connCloseCallback true = some c') ∨
      (error = false ∧ client.connEstaCallback = true ∧ control = .connEstaCallback ∧
        c' = c.log .connEstaCallback) ∨
      (error = false ∧ client.connEstaCallback = false ∧ control = .loop ∧ c' = established c) := by
  unfold connectCallback at h
  split_ifs at h with herr hesta
  · obtain ⟨c₁, h1, h⟩ := Option.bind_eq_some_iff.mp h
    obtain ⟨rfl, rfl⟩ := Prod.mk.inj (Option.some.inj h)
    exact Or.inl ⟨herr, rfl, closeConnection_eq h1⟩
  · obtain ⟨rfl, rfl⟩ := Prod.mk.inj (Option.some.inj h)
    exact Or.inr (Or.inl ⟨Bool.not_eq_true _ ▸ herr, hesta, rfl, rfl⟩)
  · obtain ⟨rfl, rfl⟩ := Prod.mk.inj (Option.some.inj h)
    exact Or.inr (Or.inr ⟨Bool.not_eq_true _ ▸ herr, Bool.not_eq_true _ ▸ hesta, rfl, rfl⟩)

theorem callbackReturned_cases (h : client.callbackReturned control c = some c') :
    ((control = .loop ∨ control = .connMsgCallback) ∧ c' = c) ∨
      (control = .connErrorCallback ∧ c.closeWith client.connCloseCallback true = some c') ∨
      (control = .connEstaCallback ∧ c' = established c) := by
  cases control with
  | loop => exact Or.inl ⟨Or.inl rfl, (Option.some.inj h).symm⟩
  | connEstaCallback => exact Or.inr (Or.inr ⟨rfl, (Option.some.inj h).symm⟩)
  | connMsgCallback => exact Or.inl ⟨Or.inr rfl, (Option.some.inj h).symm⟩
  | connErrorCallback => exact Or.inr (Or.inl ⟨rfl, closeConnection_eq h⟩)

/-- What follows the error callback. -/
theorem callbackReturned_error (c : TcpConnection) :
    client.source.callbackReturned l .connErrorCallback c =
      c.closeWith client.connCloseCallback true := by
  show client.closeConnection false c = _
  unfold closeConnection
  rw [if_pos rfl]

/-- A client does not care which thread closes. -/
theorem activeClose_eq (hd : c.destoryCallback = false) :
    c.activeClose client.source l = c.closeWith client.connCloseCallback true := if_pos hd

theorem source_regular (client : TcpClient) :
    client.source.Regular client.connCloseCallback true true where
  closeConnection := closeConnection_eq
  preConnMsgCallback := preConnMsgCallback_reads
  connectCallback h := by
    refine ⟨rfl, ?_⟩
    rcases connectCallback_cases h with hc | ⟨he, -, hc⟩ | ⟨he, -, hc⟩
    · exact Or.inl hc
    · exact Or.inr (Or.inl ⟨he, hc⟩)
    · exact Or.inr (Or.inr ⟨he, hc⟩)
  callbackReturned h := by
    rcases callbackReturned_cases h with ⟨-, hc⟩ | hc | hc
    · exact Or.inl hc
    · exact Or.inr (Or.inl hc)
    · exact Or.inr (Or.inr ⟨rfl, hc⟩)

end TcpClient

end Dagger
