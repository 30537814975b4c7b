import Dagger.Session

/-! # What a step does to a server's connection

Other threads look at the callbacks a connection has seen, at its state and at whether it was
destroyed.  `step_spec` says once how a step of its session changes them: `Destroys` is the
condition under which `closeConnection` ends in `destroy()`. -/

namespace Dagger

open TcpConnection

namespace TcpServer

/-- `closeConnection` is entered in this step with nothing left to send. -/
def Destroys (s : Session) : Action → Prop
  | .activeClose => s.conn.writeBuffer.bytes = []
  | .event revents _ script write =>
      ((s.conn.report revents).event.handle = some .preConnMsgCallback ∧
        Buffer.readReturn script ≤ 0 ∧ s.conn.writeBuffer.bytes = []) ∨
      ((s.conn.report revents).event.handle = some .sendNonblock ∧ s.conn.isWillClose = true ∧
        write = .accepted s.conn.writeBuffer.bytes.length)
  | _ => False

/-- `c` becomes `c'` in a step that may deliver a message only if `delivers`, and destroys the
connection if and only if `destroys`. -/
structure Stepped (server : TcpServer) (c c' : TcpConnection) (delivers destroys : Prop) :
    Prop where
  loop : c'.loop = c.loop
  calls : ∃ more, c'.calls = c.calls ++ more ∧ Call.connEstaCallback ∉ more ∧
    (Call.connMsgCallback ∈ more → delivers) ∧ (Call.connCloseCallback ∈ more → destroys)
  kept : ¬ destroys → c'.destroys = c.destroys ∧ c'.deletes = c.deletes ∧ c'.state = c.state
  destroyed : destroys → c'.destroys = c.destroys + 1 ∧
    c'.deletes = c.deletes + (!server.idleConnectionsManager).toNat ∧ c'.state = .CLOSED ∧
    c'.lastReceiveTime = c.lastReceiveTime

variable {server : TcpServer} {c c' : TcpConnection} {delivers destroys : Prop} {l : LoopId}
  {s t : Session} {a : Action}

/-- Nothing that others look at has changed. -/
theorem Stepped.of_eq (hloop : c'.loop = c.loop) (hcalls : c'.calls = c.calls)
    (hkept : c'.destroys = c.destroys ∧ c'.deletes = c.deletes ∧ c'.state = c.state)
    (hd : ¬ destroys) : server.Stepped c c' delivers destroys := by
  refine ⟨hloop, ⟨[], ?_, nofun, nofun, nofun⟩, fun _ => hkept, fun h => absurd h hd⟩
  rw [List.append_nil]
  exact hcalls

theorem Stepped.close
    (h : c.closeWith server.connCloseCallback (!server.idleConnectionsManager) = some c')
    (hd : destroys ↔ c.writeBuffer.bytes = []) : server.Stepped c c' delivers destroys := by
  obtain ⟨hb, rfl⟩ | ⟨hb, rfl⟩ := closeWith_cases h
  · have hn : ¬ destroys := fun h => hb (hd.mp h)
    exact ⟨rfl, ⟨_, rfl, by decide, by simp, by simp⟩, fun _ => ⟨rfl, rfl, rfl⟩,
      fun h => absurd h hn⟩
  · refine ⟨rfl, ⟨_, rfl, ?_, ?_, fun _ => hd.mpr hb⟩, fun hn => absurd (hd.mpr hb) hn,
      fun _ => ⟨rfl, rfl, rfl, rfl⟩⟩
    · cases server.connCloseCallback <;> decide
    · cases server.connCloseCallback <;> simp

theorem Stepped.message (hloop : c'.loop = c.loop)
    (hcalls : c'.calls = c.calls ++ [.connMsgCallback])
    (hkept : c'.destroys = c.destroys ∧ c'.deletes = c.deletes ∧ c'.state = c.state)
    (hm : delivers) (hd : ¬ destroys) : server.Stepped c c' delivers destroys := by
  refine ⟨hloop, ⟨_, hcalls, by decide, fun _ => hm, by simp⟩, fun _ => hkept, ?_⟩
  intro h
  exact absurd h hd

/-! ### Events -/

section event
variable {revents : EpollFlags} {time : UInt32} {script : List ReadResult} {write : WriteResult}
  {control : Control}

theorem Stepped.read (hh : (s.conn.report revents).event.handle = some .preConnMsgCallback)
    (hdel : Buffer.Deliverable 4096 script)
    (h : server.preConnMsgCallback l time script (s.conn.report revents) = some (c', control)) :
    server.Stepped s.conn c' (s.DeliversMessage server.codec (.event revents time script write))
      (Destroys s (.event revents time script write)) := by
  obtain ⟨rb, e, -⟩ :=
    ValidBuffer.readFromSocket_of_deliverable (b := (s.conn.report revents).readBuffer) hdel
  obtain ⟨readBuffer, n, last, hr, hcase⟩ := preConnMsgCallback_cases h
  rw [e] at hr
  obtain ⟨rfl, rfl⟩ := Prod.mk.inj (Option.some.inj hr)
  have hwrite : (s.conn.report revents).event.handle ≠ some .sendNonblock := by
    rw [hh]
    decide
  have hpos : 0 < Buffer.readReturn script →
      ¬ Destroys s (.event revents time script write) := by
    rintro hn (⟨-, hle, -⟩ | ⟨hf, -⟩)
    · omega
    · exact hwrite hf
  rcases hcase with ⟨hn, -, hc⟩ | ⟨hn, -, -, rfl⟩ | ⟨hn, hready, -, rfl⟩
  · have hiff : Destroys s (.event revents time script write) ↔ s.conn.writeBuffer.bytes = [] := by
      constructor
      · rintro (⟨-, -, hb⟩ | ⟨hf, -⟩)
        · exact hb
        · exact absurd hf hwrite
      · intro hb
        exact Or.inl ⟨hh, hn, hb⟩
    have hs : server.Stepped { s.conn.report revents with data := some l, readBuffer := rb } c'
        (s.DeliversMessage server.codec (.event revents time script write))
        (Destroys s (.event revents time script write)) := .close hc hiff
    exact ⟨hs.loop, hs.calls, hs.kept, hs.destroyed⟩
  · exact .of_eq rfl rfl ⟨rfl, rfl, rfl⟩ (hpos hn)
  · exact .message rfl rfl ⟨rfl, rfl, rfl⟩ ⟨hh, hn, rb, e, hready⟩ (hpos hn)

theorem Stepped.flush (hh : (s.conn.report revents).event.handle = some .sendNonblock)
    (hwrite : write.Possible s.conn.writeBuffer.bytes.length)
    (h : (s.conn.report revents).sendNonblock server.source l write = some c') :
    server.Stepped s.conn c' delivers (Destroys s (.event revents time script write)) := by
  have hread : (s.conn.report revents).event.handle ≠ some .preConnMsgCallback := by
    rw [hh]
    decide
  have hiff : Destroys s (.event revents time script write) ↔ s.conn.isWillClose = true ∧
      write = .accepted s.conn.writeBuffer.bytes.length := by
    constructor
    · rintro (⟨hf, -⟩ | ⟨-, hw⟩)
      · exact absurd hf hread
      · exact hw
    · intro hw
      exact Or.inr ⟨hh, hw⟩
  have hcases := sendNonblock_cases (c := s.conn.report revents) hwrite h
  obtain ⟨n, rest, rfl, hrest, ⟨hlt, rfl⟩ | ⟨hn, hwill, hc⟩ | ⟨hn, hwill, rfl⟩⟩ := hcases
  · refine .of_eq rfl rfl ⟨rfl, rfl, rfl⟩ ?_
    rw [hiff, WriteResult.accepted.injEq]
    rintro ⟨-, rfl⟩
    exact Nat.lt_irrefl _ hlt
  · have hempty : rest.bytes = [] := by
      rw [hrest, hn]
      exact List.drop_length
    have hs : server.Stepped ((s.conn.report revents).wrote rest n).unwatch c' delivers
        (Destroys s (.event revents time script (.accepted n))) :=
      .close (closeConnection_eq hc) (iff_of_true (hiff.mpr ⟨hwill, by rw [hn]; rfl⟩) hempty)
    exact ⟨hs.loop, hs.calls, hs.kept, hs.destroyed⟩
  · refine .of_eq rfl rfl ⟨rfl, rfl, rfl⟩ ?_
    rw [hiff]
    rintro ⟨hw, -⟩
    exact absurd (hwill.symm.trans hw) (by decide)

/-- What the handling of an event changes, also of one that is not asked for any more. -/
theorem handle_spec (hw : s.conn.Wired) (hdel : Buffer.Deliverable 4096 script)
    (hwrite : write.Possible s.conn.writeBuffer.bytes.length)
    (h : s.handle server.source l revents time script write = some t) :
    server.Stepped s.conn t.conn (s.DeliversMessage server.codec (.event revents time script write))
      (Destroys s (.event revents time script write)) ∧ t.conn.Wired := by
  have hrep := hw.report revents
  unfold Session.handle at h
  cases hh : (s.conn.report revents).event.handle with
  | none =>
      simp only [hh, Option.some.injEq] at h
      obtain rfl := h
      refine ⟨.of_eq rfl rfl ⟨rfl, rfl, rfl⟩ ?_, hrep⟩
      rintro (⟨hf, -⟩ | ⟨hf, -⟩)
      all_goals
        rw [hh] at hf
        cases hf
  | some callback =>
      cases callback with
      | preConnMsgCallback =>
          simp only [hh] at h
          obtain ⟨⟨conn, control⟩, hc, h⟩ := Option.bind_eq_some_iff.mp h
          obtain rfl := Option.some.inj h
          refine ⟨.read hh hdel hc, ?_⟩
          exact (preConnMsgCallback_reads hc).effects.invariant (fun _ _ => Wired.effect) hrep
      | sendNonblock =>
          simp only [hh] at h
          obtain ⟨conn, hc, h⟩ := Option.bind_eq_some_iff.mp h
          obtain rfl := Option.some.inj h
          refine ⟨.flush hh hwrite hc, ?_⟩
          have hslot : (s.conn.report revents).event.writeCallback = some .sendNonblock := by
            apply (Event.handle_slot hw.plain hh).resolve_left
            rw [hw.readCallback]
            decide
          have he := sendNonblock_effects server.source_regular hslot hwrite hc
          exact he.invariant (fun _ _ => Wired.effect) hrep
      | connectCallback =>
          simp only [hh] at h
          obtain ⟨p, hc, -⟩ := Option.bind_eq_some_iff.mp h
          cases hc

end event

/-- A server does nothing when its message callback returns. -/
theorem step_ret : s.step server.source l .ret = some { s with control := .loop } := rfl

/-- What a legal step changes. -/
theorem step_spec (hw : s.conn.Wired) (hl : a.Legal s) (h : s.step server.source l a = some t) :
    server.Stepped s.conn t.conn (s.DeliversMessage server.codec a) (Destroys s a) := by
  cases a with
  | send str =>
      rw [Session.step_send hl.2] at h
      obtain rfl := Option.some.inj h
      exact .of_eq rfl rfl ⟨rfl, rfl, rfl⟩ id
  | activeClose =>
      obtain ⟨conn, hc, h⟩ := Option.bind_eq_some_iff.mp h
      obtain rfl := Option.some.inj h
      exact .close (closeConnection_eq hc) Iff.rfl
  | ret =>
      rw [step_ret] at h
      obtain rfl := Option.some.inj h
      exact .of_eq rfl rfl ⟨rfl, rfl, rfl⟩ id
  | resolve ok =>
      obtain rfl := Option.some.inj h
      exact .of_eq rfl rfl ⟨rfl, rfl, rfl⟩ id
  | reset =>
      obtain rfl := Option.some.inj h
      exact .of_eq rfl rfl ⟨rfl, rfl, rfl⟩ id
  | event revents time script write =>
      obtain ⟨-, -, hrep⟩ := hl
      exact (handle_spec hw hrep.deliverable hrep.written h).1

/-- The event of a server's connection stays wired. -/
theorem wired_step (hw : s.conn.Wired) (hl : a.Legal s) (h : s.step server.source l a = some t) :
    t.conn.Wired := by
  cases a with
  | send str =>
      rw [Session.step_send hl.2] at h
      obtain rfl := Option.some.inj h
      exact hw.queue str
  | activeClose =>
      obtain ⟨conn, hc, h⟩ := Option.bind_eq_some_iff.mp h
      obtain rfl := Option.some.inj h
      exact hw.effect (closeWith_effect (closeConnection_eq hc))
  | ret =>
      rw [step_ret] at h
      obtain rfl := Option.some.inj h
      exact hw
  | resolve ok =>
      obtain rfl := Option.some.inj h
      exact hw
  | reset =>
      obtain rfl := Option.some.inj h
      exact hw
  | event revents time script write =>
      obtain ⟨-, -, hrep⟩ := hl
      exact (handle_spec hw hrep.deliverable hrep.written h).2

end TcpServer

end Dagger
