import Dagger.CloseCallback
import Dagger.IdleConnections

/-! # Eviction and the normal close

`closeConnection` waits until the write buffer is empty and announces the close; the task that the
wheel queues for an idle connection, `destoryThenDeleteConn`, does neither.  `Ended` says how
`closeConnection` leaves a connection.  All connections that are destroyed are left like that in
the runs in which the wheel evicts only connections that have nothing to send and no callback to
be announced to, and every other eviction breaks it (`evicted_as_closed`). -/

namespace Dagger

open TcpConnection Transition

/-- A connection that is destroyed has nothing left to send, and its close was announced exactly
once if there is a callback; no close was announced of one that is not. -/
structure TcpConnection.Ended (closeCallback : Bool) (c : TcpConnection) : Prop where
  alive : c.destroys = 0 → c.calls.count .connCloseCallback = 0
  sent : 0 < c.destroys → c.writeBuffer.bytes = []
  announced : 0 < c.destroys → c.calls.count .connCloseCallback = closeCallback.toNat

namespace TcpConnection

variable {closeCallback erase : Bool} {c c' : TcpConnection}

theorem Ended.of_alive (hd : c.destroys = 0) (hc : c.calls.count .connCloseCallback = 0) :
    c.Ended closeCallback :=
  ⟨fun _ => hc, fun hpos => absurd hd hpos.ne', fun hpos => absurd hd hpos.ne'⟩

theorem Ended.quiet (h : c.Ended closeCallback) (hd : c.destroys = 0) (hq : Quiet c c') :
    c'.Ended closeCallback :=
  .of_alive (hq.destroys.trans hd) (hq.closeCallbacks.trans (h.alive hd))

theorem Ended.turn (h : c.Ended closeCallback) (hd : c.destroys = 0)
    (ht : Turn closeCallback erase c c') : c'.Ended closeCallback := by
  cases ht with
  | quiet hq => exact h.quiet hd hq
  | finish c₀ hq hb he =>
      have hcalls : c₀.calls.count .connCloseCallback = 0 := hq.closeCallbacks.trans (h.alive hd)
      have hfin : c'.destroys = c₀.destroys + 1 ∧ c'.writeBuffer = c₀.writeBuffer ∧
          c'.calls = c₀.calls ++ if closeCallback then [.connCloseCallback] else [] := by
        subst he
        cases closeCallback <;> cases erase <;> simp [finish, log, destroy, delete]
      obtain ⟨hdes, hbuf, hlog⟩ := hfin
      refine ⟨fun h0 => ?_, fun _ => ?_, fun _ => ?_⟩
      · rw [hdes] at h0
        cases h0
      · rw [hbuf]
        exact hb
      · rw [hlog, List.count_append, hcalls]
        cases closeCallback <;> rfl

/-- To delete a connection that is destroyed. -/
theorem Ended.delete (h : c.Ended closeCallback) : c.delete.Ended closeCallback :=
  ⟨h.alive, h.sent, h.announced⟩

/-- To destroy a connection that has nothing to send and no callback, or is destroyed already. -/
theorem Ended.destroy (h : c.Ended closeCallback)
    (hd : c.destroys = 0 → c.writeBuffer.bytes = [] ∧ closeCallback = false) :
    c.destroy.Ended closeCallback := by
  refine ⟨fun h0 => absurd h0 (Nat.succ_ne_zero _), fun _ => ?_, fun _ => ?_⟩
  · rcases Nat.eq_zero_or_pos c.destroys with h0 | hpos
    · exact (hd h0).1
    · exact h.sent hpos
  · rcases Nat.eq_zero_or_pos c.destroys with h0 | hpos
    · rw [(hd h0).2]
      exact h.alive h0
    · exact h.announced hpos

/-- Nothing else leaves it so. -/
theorem Ended.of_destroy (h : c.Ended closeCallback) (hd : c.destroys = 0)
    (h' : c.destroy.Ended closeCallback) : c.writeBuffer.bytes = [] ∧ closeCallback = false := by
  refine ⟨h'.sent (Nat.succ_pos _), ?_⟩
  have hcalls : c.calls.count .connCloseCallback = closeCallback.toNat :=
    h'.announced (Nat.succ_pos _)
  rw [h.alive hd] at hcalls
  cases closeCallback with
  | true => cases hcalls
  | false => rfl

end TcpConnection

namespace IdleConnectionsManager

variable {ι : Type} [DecidableEq ι] {server : TcpServer} {s t : IdleConnectionsManager ι}
  {a : Act ι} {c : ι} {conn : TcpConnection}

/-- All connections that are destroyed were left as `closeConnection` leaves them. -/
def ClosedProperly (server : TcpServer) (s : IdleConnectionsManager ι) : Prop :=
  ∀ c, (s.conns c).Ended server.connCloseCallback

/-- A task that evicts a live connection finds nothing unsent and no close callback set. -/
def EvictsSilently (server : TcpServer) (s : IdleConnectionsManager ι) : Act ι → Prop
  | .runTask l => ∀ c curTask, (s.loops l).pc = .running (.destoryThenDeleteConn c :: curTask) →
      (s.conns c).destroys = 0 →
        (s.conns c).writeBuffer.bytes = [] ∧ server.connCloseCallback = false
  | _ => True

theorem ClosedProperly.setConn (h : s.ClosedProperly server)
    (hc : conn.Ended server.connCloseCallback) : (s.setConn c conn).ClosedProperly server := by
  intro c'
  by_cases hne : c' = c
  · subst hne
    rw [conns_setConn_self]
    exact hc
  · rw [conns_setConn_of_ne hne]
    exact h c'

omit [DecidableEq ι] in
/-- A step that changes no connection. -/
theorem ClosedProperly.of_conns (h : s.ClosedProperly server) (he : t.conns = s.conns) :
    t.ClosedProperly server := by
  intro c
  rw [he]
  exact h c

omit [DecidableEq ι] in
theorem conns_wheelStep (hs : s.wheelStep = some t) : t.conns = s.conns := by
  have huse : ∀ (c : ι) (u : IdleConnectionsManager ι), u.conns = s.conns →
      (s.use c u).conns = s.conns := by
    intro c u hu
    unfold use
    split
    · rfl
    · exact hu
  unfold wheelStep at hs
  split at hs
  · cases hs
  · obtain rfl := Option.some.inj hs
    rfl
  · obtain rfl := Option.some.inj hs
    exact huse _ _ rfl
  · obtain rfl := Option.some.inj hs
    exact huse _ _ rfl
  · obtain rfl := Option.some.inj hs
    refine huse _ _ ?_
    split <;> rfl
  · obtain rfl := Option.some.inj hs
    exact huse _ _ rfl

/-- What `handle()` does to the connection. -/
theorem ended_handle {l : LoopId} {revents : EpollFlags} {time : UInt32}
    {script : List ReadResult} {write : WriteResult} {r : Session}
    (h : conn.Ended server.connCloseCallback) (hd : conn.destroys = 0)
    (hw : write.Possible conn.writeBuffer.bytes.length)
    (hr : Session.handle server.source l revents time script write { conn } = some r) :
    r.conn.Ended server.connCloseCallback := by
  obtain ⟨hact, hdir⟩ := turn_handle (server.source_finishes conn.destoryCallback) rfl hw hr
  by_cases hh : (conn.report revents).event.handle = some .sendNonblock
  · exact h.turn hd (hact hh)
  · exact h.turn hd (hdir hh)

theorem closedProperly_runTask (h : s.ClosedProperly server) (task : Task ι)
    (htask : ∀ c, task = .destoryThenDeleteConn c → (s.conns c).destroys = 0 →
      (s.conns c).writeBuffer.bytes = [] ∧ server.connCloseCallback = false) :
    (s.runConnTask task).ClosedProperly server := by
  cases task with
  | deleteConn c => exact h.setConn (h c).delete
  | destoryThenDeleteConn c => exact h.setConn ((h c).destroy (htask c rfl)).delete

theorem closedProperly_step (h : s.ClosedProperly server)
    (hs : (system ι server).Step s a t) (ha : EvictsSilently server s a) :
    t.ClosedProperly server := by
  obtain ⟨-, hl, hs⟩ := hs
  cases a with
  | accept c l =>
      obtain rfl := Option.some.inj hs
      have hnew : (TcpServer.accepted l s.timeInProcess).Ended server.connCloseCallback :=
        .of_alive rfl rfl
      exact (h.setConn hnew : (s.setConn c _).ClosedProperly server)
  | tick =>
      obtain rfl := Option.some.inj hs
      exact h
  | wheel => exact h.of_conns (conns_wheelStep hs)
  | poll l batch =>
      obtain rfl := Option.some.inj hs
      exact h
  | event l script write =>
      obtain ⟨c, revents, batch, hpc, ⟨-, rfl⟩ | ⟨hlive, hs⟩⟩ := step_event hs
      · exact h
      · obtain ⟨r, hr, hs⟩ := Option.bind_eq_some_iff.mp hs
        obtain rfl := Option.some.inj hs
        have hd : (s.conns c).destroys = 0 := by
          unfold Freed at hlive
          omega
        refine ClosedProperly.setConn h ?_
        exact ended_handle (h c) hd (hl.2 c revents batch hpc) hr
  | send l c str =>
      obtain ⟨conn, hc, hs⟩ := Option.bind_eq_some_iff.mp hs
      obtain rfl := Option.some.inj hs
      exact h.setConn ((h c).quiet hl.2.2.2.1 (sendStr_quiet hc))
  | activeClose l =>
      obtain ⟨c', batch', hpc', hd⟩ := hl
      obtain ⟨c, batch, conn, hpc, hc, rfl⟩ := step_activeClose hs
      obtain ⟨rfl, -⟩ := OwnerPc.callback.inj (hpc.symm.trans hpc')
      have hclose := (server.source_finishes (s.conns c).destoryCallback).closeConnection hc
      exact h.setConn ((h c).turn hd (closeWith_turn hclose))
  | ret l =>
      obtain ⟨c, batch, -, rfl⟩ := step_ret hs
      exact h
  | swap l =>
      obtain ⟨-, rfl⟩ := step_swap hs
      exact h
  | runTask l =>
      obtain ⟨task, curTask, hpc, rfl⟩ := step_runTask hs
      refine closedProperly_runTask (s := s.setPc l (.running curTask)) h task fun c hc => ?_
      subst hc
      exact ha c curTask hpc
  | endTasks l =>
      obtain ⟨-, rfl⟩ := step_endTasks hs
      exact h

theorem closedProperly_of_reachable
    (h : Reachable ((system ι server).guarded (EvictsSilently server)) s) :
    s.ClosedProperly server := by
  induction h with
  | init hi =>
      obtain rfl := hi
      exact fun _ => .of_alive rfl rfl
  | step _ hs ih => exact closedProperly_step ih hs.1 hs.2

/-- **Evicted connections are left as `closeConnection` leaves them** in the runs in which every
connection that is evicted alive has nothing to send and no callback; and a step leaves all
connections so if and only if it meets that condition. -/
theorem evicted_as_closed
    (h : Reachable ((system ι server).guarded (EvictsSilently server)) s) :
    s.ClosedProperly server ∧ ∀ a t, (system ι server).Step s a t →
      (t.ClosedProperly server ↔ EvictsSilently server s a) := by
  have hclosed := closedProperly_of_reachable h
  refine ⟨hclosed, fun a t hs => ⟨fun ht => ?_, closedProperly_step hclosed hs⟩⟩
  cases a with
  | runTask l =>
      intro c curTask hpc hd
      obtain ⟨task, curTask', hpc', rfl⟩ := step_runTask hs.2.2
      obtain ⟨rfl, rfl⟩ := List.cons.inj (OwnerPc.running.inj (hpc'.symm.trans hpc))
      have hc := ht c
      simp only [runConnTask, conns_setConn_self] at hc
      have hdestroy : ((s.conns c).destroy).Ended server.connCloseCallback :=
        ⟨hc.alive, hc.sent, hc.announced⟩
      exact (hclosed c).of_destroy hd hdestroy
  | _ => trivial

/-- The silent connection is evicted; its server has no close callback. -/
theorem evicted_as_closed_silence : ∃ s : IdleConnectionsManager Unit,
    Path ((system Unit managed).guarded (EvictsSilently managed)) {} (silence ++ eviction) s ∧
      (s.conns ()).destroys = 1 ∧ s.ClosedProperly managed ∧
        ∀ a t, (system Unit managed).Step s a t →
          (t.ClosedProperly managed ↔ EvictsSilently managed s a) := by
  obtain ⟨w, hsilence⟩ := @path_silence managed
  have hguarded := hsilence.guarded_of (C := EvictsSilently managed) fun a ha s => by
    rcases mem_silence ha with rfl | rfl | rfl <;> trivial
  have hpath : ∃ s : IdleConnectionsManager Unit,
      Path ((system Unit managed).guarded (EvictsSilently managed)) (evicted w) eviction s ∧
        (s.conns ()).destroys = 1 := by
    refine ⟨_, .cons ⟨⟨rfl, ?_, rfl⟩, trivial⟩ (.cons ⟨⟨rfl, trivial, rfl⟩, trivial⟩
      (.cons ⟨⟨rfl, trivial, rfl⟩, fun _ _ _ _ => ⟨rfl, rfl⟩⟩ (.nil _))), rfl⟩
    exact ⟨rfl, List.nodup_nil, nofun⟩
  obtain ⟨s, hpath, hdes⟩ := hpath
  have hp := hguarded.append hpath
  exact ⟨s, hp, hdes, evicted_as_closed (hp.reachable (.init rfl))⟩

/-- A server that has its closes announced. -/
def announcing : TcpServer := ⟨fun b => (false, b), false, true, true⟩

/-- The silent connection is evicted without the callback. -/
theorem evicted_unannounced : announcing.connCloseCallback = true ∧
    ∃ s : IdleConnectionsManager Unit, Path (system Unit announcing) {} (silence ++ eviction) s ∧
      (s.conns ()).destroys = 1 ∧ (s.conns ()).calls = [] := by
  obtain ⟨w, hsilence⟩ := @path_silence announcing
  have hpath : ∃ s : IdleConnectionsManager Unit,
      Path (system Unit announcing) (evicted w) eviction s ∧ (s.conns ()).destroys = 1 ∧
        (s.conns ()).calls = [] := by
    refine ⟨_, .cons ⟨rfl, ?_, rfl⟩ (.cons ⟨rfl, trivial, rfl⟩
      (.cons ⟨rfl, trivial, rfl⟩ (.nil _))), rfl, rfl⟩
    exact ⟨rfl, List.nodup_nil, nofun⟩
  obtain ⟨s, hpath, hs⟩ := hpath
  exact ⟨rfl, s, hsilence.append hpath, hs⟩

end IdleConnectionsManager

end Dagger
