import Dagger.Session

/-! # Delivery on a server connection

The payloads of `send` reach the socket in order, through `writeBuffer_`, which is watched
by epoll exactly while it holds something, and a connection is destroyed with an empty
buffer only.  `Delivering` is the invariant behind this: every effect keeps it, hence every
step, hence every run.  The client shares the effects but not the invariant, since its connect
callback sits in the same slot as `sendNonblock`. -/

namespace Dagger

open TcpConnection Transition

namespace TcpConnection

structure Delivering (c : TcpConnection) : Prop where
  wired : c.Wired
  conserved : c.written ++ c.writeBuffer.bytes = c.sent
  watched : c.writeBuffer.bytes ≠ [] ↔ c.event.isWritable = true
  flushed : c.event.isWritable = true → c.event.writeCallback = some .sendNonblock
  destroyed : 0 < c.destroys → c.writeBuffer.bytes = []

variable {closeCallback erase : Bool} {c c' : TcpConnection} {str : List Byte}

theorem Delivering.accepted (l : LoopId) (time : UInt32) :
    (TcpServer.accepted l time).Delivering where
  wired := ⟨⟨rfl, rfl, rfl, rfl, rfl⟩, rfl, nofun⟩
  conserved := rfl
  watched := ⟨fun h => absurd rfl h, fun h => by cases h⟩
  flushed h := by cases h
  destroyed h := absurd h (Nat.lt_irrefl 0)

theorem Delivering.queue (h : c.Delivering) (hd : c.destroys = 0) (hstr : str ≠ []) :
    (c.queue str).Delivering where
  wired := h.wired.queue str
  conserved := by
    show c.written ++ (c.writeBuffer.append str).bytes = c.sent ++ str
    rw [ValidBuffer.bytes_append, ← List.append_assoc, h.conserved]
  watched := ⟨fun _ => Event.isWritable_wantWrite, fun _ => bytes_queue_ne_nil hstr⟩
  flushed := by
    intro _
    show c.event.wantWrite.writeCallback = _
    rw [Event.writeCallback_wantWrite]
    split_ifs with hw
    · exact h.flushed hw
    · rfl
  destroyed hpos := absurd hd (Nat.pos_iff_ne_zero.mp hpos)

/-- Bytes move from the buffer to the socket, and their order stays. -/
theorem Delivering.wrote (h : c.Delivering) {rest : ValidBuffer IO_BUFFER_SIZE} {n : ℕ}
    (hrest : rest.bytes = c.writeBuffer.bytes.drop n) :
    (c.wrote rest n).written ++ rest.bytes = c.sent := by
  show c.written ++ c.writeBuffer.bytes.take n ++ rest.bytes = c.sent
  rw [hrest, List.append_assoc, List.take_append_drop, h.conserved]

/-- A buffer that has been emptied, with writable events switched off. -/
theorem Delivering.emptied {rest : ValidBuffer IO_BUFFER_SIZE} (h : c.Delivering)
    (hrest : rest.bytes = []) :
    (c.wrote rest c.writeBuffer.bytes.length).unwatch.Delivering where
  wired := ⟨h.wired.plain.setWritable, h.wired.readCallback, h.wired.writeCallback⟩
  conserved := h.wrote (hrest.trans List.drop_length.symm)
  watched := ⟨fun hne => absurd hrest hne, fun hw => by cases hw⟩
  flushed hw := by cases hw
  destroyed _ := hrest

theorem Delivering.effect (h : c.Delivering) (he : Effect closeCallback erase c c') :
    c'.Delivering := by
  have hwired := h.wired.effect he
  cases he with
  | report flags => exact ⟨hwired, h.conserved, h.watched, h.flushed, h.destroyed⟩
  | read => exact ⟨hwired, h.conserved, h.watched, h.flushed, h.destroyed⟩
  | callback => exact ⟨hwired, h.conserved, h.watched, h.flushed, h.destroyed⟩
  | deferClose hne =>
      -- writable events are asked for already, so only reads are switched off
      have hw : (c.event.setReadable false).isWritable = true := h.watched.mp hne
      have he : (c.event.setReadable false).wantWrite = c.event.setReadable false :=
        Event.wantWrite_of_isWritable hw
      refine ⟨hwired, h.conserved, ?_, ?_, h.destroyed⟩
      · show c.writeBuffer.bytes ≠ [] ↔ (c.event.setReadable false).wantWrite.isWritable = true
        rw [he]
        exact h.watched
      · intro _
        show (c.event.setReadable false).wantWrite.writeCallback = _
        rw [he]
        exact h.flushed hw
  | close hb => exact ⟨hwired, h.conserved, h.watched, h.flushed, fun _ => hb⟩
  | @write rest n c _ hlt hrest =>
      have hne : c.writeBuffer.bytes ≠ [] := List.ne_nil_of_length_pos (by omega)
      refine ⟨hwired, h.wrote hrest, ⟨fun _ => h.watched.mp hne, fun _ => ?_⟩, h.flushed, ?_⟩
      · show rest.bytes ≠ []
        rw [hrest]
        exact List.ne_nil_of_length_pos (by rw [List.length_drop]; omega)
      · intro hpos
        exact absurd (h.destroyed hpos) hne
  | flush _ hrest _ => exact h.emptied hrest
  | flushClose _ hrest _ =>
      have he := h.emptied hrest
      exact ⟨hwired, he.conserved, he.watched, he.flushed, fun _ => hrest⟩

theorem Delivering.effects (h : c.Delivering) (he : Effects closeCallback erase c c') :
    c'.Delivering :=
  he.invariant (fun _ _ => Delivering.effect) h

end TcpConnection

namespace TcpServer

variable {server : TcpServer} {l : LoopId} {s t : Session} {a : Action}

theorem delivering_step (h : s.conn.Delivering) (hs : (server.runs l).Step s a t) :
    t.conn.Delivering := by
  obtain ⟨hl, hs⟩ := hs
  rcases Session.step_cases server.source_regular h.wired hl hs with
    ⟨str, rfl, hstr, rfl⟩ | ⟨-, he⟩ | ⟨_, _, _, _, -, -, hc⟩ | ⟨-, hr, -⟩
  · exact h.queue hl.1 hstr
  · exact h.effects he
  · cases hc
  · rw [← Option.some.inj hr]
    exact h

/-- The invariant holds in every reachable state. -/
theorem delivering_of_reachable (h : Reachable (server.runs l) s) : s.conn.Delivering := by
  refine h.invariant ?_ (fun _ _ _ => delivering_step)
  rintro _ ⟨time, rfl⟩
  exact .accepted l time

/-- A server without callbacks whose messages are ready as soon as they arrive. -/
def plain : TcpServer := ⟨fun b => (true, b), false, false, false⟩

end TcpServer

end Dagger
