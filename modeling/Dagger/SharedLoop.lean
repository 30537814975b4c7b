import Dagger.Dispatch
import Dagger.ServerDelivery
import Dagger.ServerStep
import Dagger.DeferredClose

/-! # Connections that share a loop

A loop handles the events of many connections in turn, and a callback may send on or close any
of them.  `Acts` says which step of one connection a step of the loop is.  As long as no callback
closes a connection whose event waits in the batch, every event is handled with the mask it was
reported for, and `simulates` makes each connection of the loop a connection alone: what is proved
about one holds of all.

A batch that is disturbed reports events that are not asked for any more.  `shared_delivery` holds
in these runs too; `late_message` is one in which a message arrives after the close.  As in
`Session`, `connCloseCallback_` makes no calls: what it sent would be lost (`last_word_lost`). -/

namespace Dagger

open TcpConnection Transition

namespace Dispatch

variable {ι : Type} [DecidableEq ι] {server : TcpServer} {l : LoopId} {s t : Dispatch ι}
  {a : Act ι} {b : Action} {i : ι} {r : Session}

/-! ### The steps of one connection -/

/-- Connection `i` without the others. -/
def alone (s : Dispatch ι) (i : ι) : Session := { conn := s.conns i }

/-- The step `a` of the loop is the step `b` of connection `i`. -/
inductive Acts (s : Dispatch ι) (i : ι) : Act ι → Action → Prop
  | send (str : List Byte) : Acts s i (.send i str) (.send str)
  | activeClose : Acts s i (.activeClose i) .activeClose
  | handle {revents : EpollFlags} {batch : List (EventPtr ι × EpollFlags)} (time : UInt32)
      (script : List ReadResult) (write : WriteResult) :
      s.batch = (.conn i, revents) :: batch → (s.conns i).destroys = 0 →
        Acts s i (.handle time script write) (.event revents time script write)

/-- A step of the loop leaves a connection as it is, or is a step of its own. -/
theorem step_conn (h : s.step server l a = some t) (i : ι) :
    t.conns i = s.conns i ∨
      ∃ b r, s.Acts i a b ∧ (s.alone i).step server.source l b = some r ∧ t.conns i = r.conn := by
  cases a with
  | poll batch =>
      obtain rfl := Option.some.inj h
      exact Or.inl rfl
  | task =>
      obtain rfl := Option.some.inj h
      exact Or.inl rfl
  | ret =>
      obtain rfl := Option.some.inj h
      exact Or.inl rfl
  | send j str =>
      obtain ⟨c, hc, h⟩ := Option.bind_eq_some_iff.mp h
      obtain rfl := Option.some.inj h
      by_cases hij : i = j
      · subst hij
        refine Or.inr ⟨_, { conn := c }, .send str, ?_, Function.update_self ..⟩
        simp only [Session.step, alone, hc, Option.bind_eq_bind, Option.bind_some]
      · exact Or.inl (Function.update_of_ne hij _ _)
  | activeClose j =>
      obtain ⟨c, hc, h⟩ := Option.bind_eq_some_iff.mp h
      obtain rfl := Option.some.inj h
      by_cases hij : i = j
      · subst hij
        exact Or.inr ⟨_, _, .activeClose, Session.step_activeClose hc, Function.update_self ..⟩
      · exact Or.inl (Function.update_of_ne hij _ _)
  | handle time script write =>
      unfold step at h
      dsimp only at h
      split at h
      · cases h
      · obtain rfl := Option.some.inj h
        exact Or.inl rfl
      · obtain rfl := Option.some.inj h
        exact Or.inl rfl
      · obtain rfl := Option.some.inj h
        exact Or.inl rfl
      · rename_i j revents batch hb
        split_ifs at h with hd
        · obtain rfl := Option.some.inj h
          exact Or.inl rfl
        · obtain ⟨r, hr, h⟩ := Option.bind_eq_some_iff.mp h
          obtain rfl := Option.some.inj h
          by_cases hij : i = j
          · subst hij
            refine Or.inr ⟨_, r, .handle time script write hb ?_, hr, Function.update_self ..⟩
            exact Nat.eq_zero_of_not_pos hd
          · exact Or.inl (Function.update_of_ne hij _ _)

omit [DecidableEq ι] in
/-- Nothing is done with a connection after its `destroy()`. -/
theorem Acts.alive (h : s.Acts i a b) (hl : a.Legal s) : (s.conns i).destroys = 0 := by
  cases h with
  | send str => exact hl.2.1
  | activeClose => exact hl.2
  | handle time script write hb hd => exact hd

omit [DecidableEq ι] in
/-- What changes, also for an event that is not asked for any more. -/
theorem Acts.spec (h : s.Acts i a b) (hw : (s.conns i).Wired) (hl : a.Legal s)
    (hr : (s.alone i).step server.source l b = some r) :
    (∃ delivers destroys, server.Stepped (s.conns i) r.conn delivers destroys) ∧ r.conn.Wired := by
  cases h with
  | send str =>
      have hlegal : (Action.send str).Legal (s.alone i) := hl.2
      exact ⟨⟨_, _, TcpServer.step_spec hw hlegal hr⟩, TcpServer.wired_step hw hlegal hr⟩
  | activeClose =>
      have hlegal : Action.activeClose.Legal (s.alone i) := hl.2
      exact ⟨⟨_, _, TcpServer.step_spec hw hlegal hr⟩, TcpServer.wired_step hw hlegal hr⟩
  | handle time script write hb hd =>
      have hs := TcpServer.handle_spec (s := s.alone i) hw hl.2.1 (hl.2.2 _ _ _ hb) hr
      exact ⟨⟨_, _, hs.1⟩, hs.2⟩

/-- An event makes effects only, whatever it reports. -/
theorem handle_effects {c : Session} {revents : EpollFlags} {time : UInt32}
    {script : List ReadResult} {write : WriteResult} (hw : c.conn.Wired)
    (hwrite : write.Possible c.conn.writeBuffer.bytes.length)
    (h : c.handle server.source l revents time script write = some r) :
    Effects server.connCloseCallback (!server.idleConnectionsManager) c.conn r.conn := by
  have hrep := hw.report revents
  have he : Effect server.connCloseCallback (!server.idleConnectionsManager) c.conn
      (c.conn.report revents) := .report revents _
  unfold Session.handle at h
  cases hh : (c.conn.report revents).event.handle with
  | none =>
      simp only [hh, Option.some.injEq] at h
      obtain rfl := h
      exact .single he
  | some callback =>
      cases callback with
      | preConnMsgCallback =>
          simp only [hh] at h
          obtain ⟨⟨conn, control⟩, hc, h⟩ := Option.bind_eq_some_iff.mp h
          obtain rfl := Option.some.inj h
          exact .head he (TcpServer.preConnMsgCallback_reads hc).effects
      | sendNonblock =>
          simp only [hh] at h
          obtain ⟨conn, hc, h⟩ := Option.bind_eq_some_iff.mp h
          obtain rfl := Option.some.inj h
          have hslot : (c.conn.report revents).event.writeCallback = some .sendNonblock := by
            apply (Event.handle_slot hw.plain hh).resolve_left
            rw [hw.readCallback]
            decide
          exact .head he (sendNonblock_effects server.source_regular hslot hwrite hc)
      | connectCallback =>
          simp only [hh] at h
          obtain ⟨p, hc, -⟩ := Option.bind_eq_some_iff.mp h
          cases hc

/-! ### Undisturbed batches -/

/-- No callback closes a connection whose event waits in the batch. -/
def Undisturbed (s : Dispatch ι) (a : Act ι) : Prop := ∀ i, a = .activeClose i → ¬ s.Waits i

/-- The plain server delivers a message for every read. -/
theorem step_plain {s : Dispatch ι} {i : ι} {revents : EpollFlags}
    {batch : List (EventPtr ι × EpollFlags)} {script : List ReadResult} {write : WriteResult}
    (hb : s.batch = (.conn i, revents) :: batch) (hd : (s.conns i).destroys = 0)
    (hh : ((s.conns i).report revents).event.handle = some .preConnMsgCallback)
    (hdel : Buffer.Deliverable 4096 script) (hpos : 0 < Buffer.readReturn script) :
    ∃ readBuffer : ValidBuffer IO_BUFFER_SIZE,
      s.step TcpServer.plain l (.handle 0 script write) = some { s with
        conns := Function.update s.conns i
          (log { (s.conns i).report revents with data := some l, readBuffer } .connMsgCallback)
        batch := batch
        userCode := true } := by
  obtain ⟨readBuffer, -, h⟩ := @TcpServer.preConnMsgCallback_of_pos TcpServer.plain l 0 script
    ((s.conns i).report revents) hdel hpos
  exact ⟨readBuffer, step_read hb hd hh h⟩

/-- Two connections are reported together.  The message callback of the first closes it, and sends
one byte on the second, which is read after that. -/
def closesAndSends : List (Act Bool) :=
  [.poll [(.conn true, { EPOLLIN := true }), (.conn false, { EPOLLIN := true })],
    .handle 0 [.data [7]] (.accepted 0), .activeClose true, .send false [1], .ret,
    .handle 0 [.data [8]] (.accepted 0)]

theorem path_closesAndSends : ∃ s : Dispatch Bool,
    Path ((system Bool TcpServer.plain 0).guarded Undisturbed)
      { conns := fun _ => TcpServer.accepted 0 0 } closesAndSends s ∧
      (s.conns true).destroys = 1 ∧ (s.conns false).sent = [1] := by
  let c₀ := TcpServer.accepted 0 0
  let s₁ : Dispatch Bool :=
    { conns := fun _ => c₀
      batch := [(.conn true, { EPOLLIN := true }), (.conn false, { EPOLLIN := true })] }
  obtain ⟨rb₁, hread₁⟩ := @step_plain Bool _ 0 s₁ true _ _ [.data [7]] (.accepted 0) rfl rfl rfl
    (by decide) (by decide)
  let c₁ : TcpConnection :=
    log { c₀.report { EPOLLIN := true } with data := some 0, readBuffer := rb₁ } .connMsgCallback
  have hclose : c₁.activeClose TcpServer.plain.source 0 = some (c₁.closeNow false true) :=
    (TcpServer.activeClose_of_owner rfl rfl).trans (closeWith_of_empty rfl)
  let s₂ : Dispatch Bool :=
    { conns := Function.update (Function.update (Function.update s₁.conns true c₁) true
        (c₁.closeNow false true)) false (c₀.queue [1])
      batch := [(.conn false, { EPOLLIN := true })] }
  obtain ⟨rb₂, hread₂⟩ := @step_plain Bool _ 0 s₂ false _ _ [.data [8]] (.accepted 0) rfl rfl rfl
    (by decide) (by decide)
  refine ⟨_, .cons ⟨⟨rfl, ?_, rfl⟩, ?_⟩ (.cons ⟨⟨rfl, ?_, hread₁⟩, ?_⟩
    (.cons ⟨⟨rfl, ?_, step_activeClose hclose⟩, ?_⟩ (.cons ⟨⟨rfl, ?_, step_send (by decide)⟩, ?_⟩
      (.cons ⟨⟨rfl, ?_, rfl⟩, ?_⟩ (.cons ⟨⟨rfl, ?_, hread₂⟩, ?_⟩ (.nil _)))))), rfl, rfl⟩
  · exact poll_legal ⟨rfl, rfl⟩ (by decide) (by simp) (fun _ => rfl) (fun _ => rfl)
  · exact fun _ h => by cases h
  · exact handle_legal rfl (by decide)
  · exact fun _ h => by cases h
  · exact ⟨rfl, rfl⟩
  · rintro _ ⟨⟩ hw
    exact absurd (List.mem_singleton.mp hw) (by decide)
  · exact ⟨rfl, rfl, by decide⟩
  · exact fun _ h => by cases h
  · exact rfl
  · exact fun _ h => by cases h
  · exact handle_legal rfl (by decide)
  · exact fun _ h => by cases h

theorem reachable_closesAndSends : ∃ s : Dispatch Bool,
    Reachable ((system Bool TcpServer.plain 0).guarded Undisturbed) s ∧
      (s.conns true).destroys = 1 ∧ (s.conns false).sent = [1] := by
  obtain ⟨s, hp, h⟩ := path_closesAndSends
  exact ⟨s, hp.reachable (.init ⟨fun _ => 0, rfl⟩), h⟩

/-! ### Delivery on a shared loop -/

/-- What holds of every connection of a loop, whatever the batch reports. -/
structure Served (server : TcpServer) (c : TcpConnection) : Prop where
  delivering : c.Delivering
  once : c.destroys ≤ 1
  deleted : c.deletes = c.destroys * (!server.idleConnectionsManager).toNat

omit [DecidableEq ι] in
theorem Served.acts (h : Served server (s.conns i)) (ha : s.Acts i a b) (hl : a.Legal s)
    (hr : (s.alone i).step server.source l b = some r) : Served server r.conn := by
  have hd := ha.alive hl
  obtain ⟨⟨delivers, destroys, hspec⟩, -⟩ := ha.spec h.delivering.wired hl hr
  have hdelivering : r.conn.Delivering := by
    cases ha with
    | send str =>
        have hs : (server.runs l).Step (s.alone i) (.send str) r := ⟨hl.2, hr⟩
        exact TcpServer.delivering_step h.delivering hs
    | activeClose =>
        have hs : (server.runs l).Step (s.alone i) .activeClose r := ⟨hl.2, hr⟩
        exact TcpServer.delivering_step h.delivering hs
    | handle time script write hb hd =>
        exact h.delivering.effects (handle_effects h.delivering.wired (hl.2.2 _ _ _ hb) hr)
  have hdel := h.deleted
  by_cases hdest : destroys
  · obtain ⟨h1, h2, -⟩ := hspec.destroyed hdest
    refine ⟨hdelivering, by omega, ?_⟩
    rw [h2, h1, hdel, hd, Nat.zero_mul, Nat.zero_add, Nat.zero_add, Nat.one_mul]
  · obtain ⟨h1, h2, -⟩ := hspec.kept hdest
    refine ⟨hdelivering, by omega, ?_⟩
    rw [h2, h1, hdel]

theorem served_of_reachable (h : Reachable (system ι server l) s) (i : ι) :
    Served server (s.conns i) := by
  refine h.invariant (I := fun s => ∀ i, Served server (s.conns i)) ?_ ?_ i
  · rintro _ ⟨time, rfl⟩ i
    exact ⟨.accepted l (time i), Nat.zero_le _, (Nat.zero_mul _).symm⟩
  · rintro s a t hinv ⟨-, hl, hs⟩ i
    rcases step_conn hs i with he | ⟨b, r, ha, hr, he⟩
    · rw [he]
      exact hinv i
    · rw [he]
      exact (hinv i).acts ha hl hr

/-- **Delivery on a shared loop**: in every run of a loop whose `connCloseCallback_` makes no calls,
whatever its other callbacks close and whatever events a disturbed batch reports, what was handed
to the socket of each connection followed by what its buffer holds are the payloads sent on it in
order; it is destroyed at most once, with everything written, and freed as often as destroyed in
the default build. -/
theorem shared_delivery (h : Reachable (system ι server l) s) (i : ι) :
    (s.conns i).written ++ (s.conns i).writeBuffer.bytes = (s.conns i).sent ∧
      (0 < (s.conns i).destroys → (s.conns i).written = (s.conns i).sent) ∧
      (s.conns i).destroys ≤ 1 ∧
      (s.conns i).deletes = if server.idleConnectionsManager then 0 else (s.conns i).destroys := by
  obtain ⟨hd, honce, hdel⟩ := served_of_reachable h i
  refine ⟨hd.conserved, fun hpos => ?_, honce, ?_⟩
  · have hc := hd.conserved
    rwa [hd.destroyed hpos, List.append_nil] at hc
  · rw [hdel]
    cases server.idleConnectionsManager with
    | false => exact Nat.mul_one _
    | true => exact Nat.mul_zero _

/-- One connection is closed by its own callback, which sends on the other. -/
theorem shared_delivery_closesAndSends : ∃ s : Dispatch Bool, (s.conns true).destroys = 1 ∧
    (s.conns true).deletes = 1 ∧
      (s.conns false).written ++ (s.conns false).writeBuffer.bytes = [1] := by
  obtain ⟨s, hs, hd, hsent⟩ := reachable_closesAndSends
  obtain ⟨-, -, -, hdel⟩ := shared_delivery hs.of_guarded true
  refine ⟨s, hd, hdel.trans hd, ?_⟩
  rw [← hsent]
  exact (shared_delivery hs.of_guarded false).1

/-! ### A connection by itself -/

/-- Every event in the batch is live and still asked for. -/
structure Fresh (s : Dispatch ι) : Prop where
  live : s.Live
  wired : ∀ i, (s.conns i).Wired
  reportable : ∀ i revents, (.conn i, revents) ∈ s.batch →
    (s.conns i).event.events.Reportable revents

omit [DecidableEq ι] in
theorem waits_of_mem {revents : EpollFlags} (h : (.conn i, revents) ∈ s.batch) : s.Waits i :=
  List.mem_map.mpr ⟨_, h, rfl⟩

omit [DecidableEq ι] in
/-- The steps of a connection in a fresh batch are legal for the connection alone. -/
theorem Acts.legal (h : s.Acts i a b) (hf : s.Fresh) (hl : a.Legal s) : b.Legal (s.alone i) := by
  cases h with
  | send str => exact hl.2
  | activeClose => exact hl.2
  | @handle revents batch time script write hb hd =>
      have hmem : (.conn i, revents) ∈ s.batch := by
        rw [hb]
        exact List.mem_cons_self ..
      refine ⟨hd, rfl, hf.reportable i revents hmem, ?_, hl.2.1, ?_, hl.2.2 _ _ _ hb⟩
      · intro hpending
        cases hpending
      · intro hfailed
        cases hfailed

/-- `send` asks for writes, and still for what was asked for before. -/
theorem reportable_queue {c : TcpConnection} {revents : EpollFlags} {str : List Byte}
    (h : c.event.events.Reportable revents) : (c.queue str).event.events.Reportable revents := by
  show c.event.wantWrite.events.Reportable revents
  unfold Event.wantWrite
  split_ifs
  · exact h
  · obtain ⟨hin, hpri, -, hrd, hwr⟩ := h
    exact ⟨hin, hpri, fun _ => rfl, hrd, hwr⟩

/-- Between two calls of `poll` events only leave the batch, from its front. -/
theorem batch_cases (h : s.step server l a = some t) :
    (∃ batch, a = .poll batch ∧ t.batch = batch ∧ t.conns = s.conns) ∨ t.batch = s.batch ∨
      ∃ e, s.batch = e :: t.batch := by
  cases a with
  | poll batch =>
      obtain rfl := Option.some.inj h
      exact Or.inl ⟨batch, rfl, rfl, rfl⟩
  | handle time script write =>
      obtain ⟨p, revents, hb, -⟩ := handle_cases h
      exact Or.inr (Or.inr ⟨_, hb⟩)
  | task =>
      obtain rfl := Option.some.inj h
      exact Or.inr (Or.inl rfl)
  | ret =>
      obtain rfl := Option.some.inj h
      exact Or.inr (Or.inl rfl)
  | send j str =>
      obtain ⟨c, -, h⟩ := Option.bind_eq_some_iff.mp h
      obtain rfl := Option.some.inj h
      exact Or.inr (Or.inl rfl)
  | activeClose j =>
      obtain ⟨c, -, h⟩ := Option.bind_eq_some_iff.mp h
      obtain rfl := Option.some.inj h
      exact Or.inr (Or.inl rfl)

/-- A step on a connection whose event still waits leaves the mask large enough. -/
theorem Fresh.reportable_acts {revents : EpollFlags} (h : s.Fresh)
    (hs : ((system ι server l).guarded Undisturbed).Step s a t) (ha : s.Acts i a b)
    (hr : (s.alone i).step server.source l b = some r) (hmem : (.conn i, revents) ∈ t.batch)
    (hrep : (s.conns i).event.events.Reportable revents) :
    r.conn.event.events.Reportable revents := by
  obtain ⟨⟨-, hl, hs⟩, hguard⟩ := hs
  cases ha with
  | send str =>
      rw [Session.step_send hl.2.2] at hr
      obtain rfl := Option.some.inj hr
      exact reportable_queue hrep
  | activeClose =>
      obtain ⟨c, rfl, -⟩ := activeClose_cases hs
      exact absurd (waits_of_mem hmem) (hguard i rfl)
  | handle time script write hb hd =>
      obtain ⟨p, revents', hb', -⟩ := handle_cases hs
      cases hb.symm.trans hb'
      have hnodup := h.live.nodup
      rw [hb, List.map_cons, List.nodup_cons] at hnodup
      exact absurd (waits_of_mem hmem) hnodup.1

theorem fresh_step (h : s.Fresh) (hs : ((system ι server l).guarded Undisturbed).Step s a t) :
    t.Fresh := by
  have hkeeps : s.Keeps a := fun i ha hw => absurd hw (hs.2 i ha)
  refine ⟨live_step h.live ⟨hs.1, hkeeps⟩, fun i => ?_, fun i revents hmem => ?_⟩
  · rcases step_conn hs.1.2.2 i with he | ⟨b, r, ha, hr, he⟩
    · rw [he]
      exact h.wired i
    · rw [he]
      exact (ha.spec (h.wired i) hs.1.2.1 hr).2
  · rcases batch_cases hs.1.2.2 with ⟨batch, rfl, hb, hc⟩ | hb
    · rw [hb] at hmem
      rw [hc]
      exact (hs.1.2.1.2.2 i revents hmem).2
    · have hold : (.conn i, revents) ∈ s.batch := by
        rcases hb with hb | ⟨e, hb⟩
        · rwa [hb] at hmem
        · rw [hb]
          exact List.mem_cons_of_mem _ hmem
      have hrep := h.reportable i revents hold
      rcases step_conn hs.1.2.2 i with he | ⟨b, r, ha, hr, he⟩
      · rw [he]
        exact hrep
      · rw [he]
        exact h.reportable_acts hs ha hr hmem hrep

omit [DecidableEq ι] in
/-- What the loop does with a connection is a run of the connection alone: a message callback that
the event has started returns before anything else happens to it. -/
theorem Acts.path (h : s.Acts i a b) (hf : s.Fresh) (hl : a.Legal s)
    (hr : (s.alone i).step server.source l b = some r) :
    ∃ bs, Path (server.runs l) (s.alone i) bs { conn := r.conn } := by
  have hlegal := h.legal hf hl
  cases h with
  | send str =>
      refine ⟨[.send str], .cons ⟨hlegal, hr⟩ ?_⟩
      rw [Session.step_send hl.2.2] at hr
      obtain rfl := Option.some.inj hr
      exact .nil _
  | activeClose =>
      refine ⟨[.activeClose], .cons ⟨hlegal, hr⟩ ?_⟩
      obtain ⟨c, -, hr⟩ := Option.bind_eq_some_iff.mp hr
      obtain rfl := Option.some.inj hr
      exact .nil _
  | @handle revents batch time script write hb hd =>
      have hfirst : ∀ {bs t}, Path (server.runs l) r bs t →
          Path (server.runs l) (s.alone i) (.event revents time script write :: bs) t :=
        .cons ⟨hlegal, hr⟩
      rcases Session.event_cases (hf.wired i) hlegal.2.2.interest hr with
        ⟨-, rfl⟩ | ⟨-, hc, hattempt, herror⟩ | ⟨-, -, -, -, hc⟩ | ⟨-, -, -, hc, -⟩
      · exact ⟨_, hfirst (.nil _)⟩
      · have he : r = { conn := r.conn, control := r.control } := by
          cases r
          cases hattempt
          cases herror
          rfl
        obtain ⟨readBuffer, n, last, -, hcase⟩ := TcpServer.preConnMsgCallback_cases hc
        rcases hcase with ⟨-, hctl, -⟩ | ⟨-, -, hctl, -⟩ | ⟨-, -, hctl, hconn⟩
        · rw [hctl] at he
          rw [← he]
          exact ⟨_, hfirst (.nil _)⟩
        · rw [hctl] at he
          rw [← he]
          exact ⟨_, hfirst (.nil _)⟩
        · have hdr : r.conn.destroys = 0 := by
            rw [hconn]
            exact hd
          have hret : (server.runs l).Step r .ret { conn := r.conn } := by
            refine ⟨⟨hdr, by rw [hctl]; decide⟩, TcpServer.step_ret.trans ?_⟩
            rw [he]
          exact ⟨_, hfirst (.cons hret (.nil _))⟩
      · rw [hc] at hfirst
        exact ⟨_, hfirst (.nil _)⟩
      · cases hc

/-- Each connection of an undisturbed loop behaves like one with a loop of its own. -/
theorem simulates (i : ι) : Simulation ((system ι server l).guarded Undisturbed) (server.runs l)
    (fun s r => s.Fresh ∧ r = s.alone i) where
  init := by
    rintro _ ⟨time, rfl⟩
    refine ⟨_, ⟨time i, rfl⟩, ⟨⟨List.nodup_nil, ?_, rfl⟩, fun j => ?_, ?_⟩, rfl⟩
    · intro j hj
      cases hj
    · exact (Delivering.accepted l (time j)).wired
    · intro j revents hmem
      cases hmem
  step := by
    rintro s a t _ ⟨hf, rfl⟩ hs
    have ht := fresh_step hf hs
    rcases step_conn hs.1.2.2 i with he | ⟨b, r, ha, hr, he⟩
    · refine ⟨[], _, .nil _, ht, ?_⟩
      unfold alone
      rw [he]
    · obtain ⟨bs, hpath⟩ := ha.path hf hs.1.2.1 hr
      refine ⟨bs, _, hpath, ht, ?_⟩
      unfold alone
      rw [he]

/-- **Connections of one loop do not disturb each other** in the runs in which no callback closes
a connection whose event waits in the batch: each of them is then in a state that it can also
reach with the loop to itself. -/
theorem alone_of_shared (h : Reachable ((system ι server l).guarded Undisturbed) s) (i : ι) :
    Reachable (server.runs l) (s.alone i) := by
  obtain ⟨_, hr, -, rfl⟩ := (simulates i).reachable h
  exact hr

theorem alone_of_shared_closesAndSends : ∃ s : Dispatch Bool, (s.conns true).destroys = 1 ∧
    (s.conns false).sent = [1] ∧ Reachable (TcpServer.plain.runs 0) (s.alone true) ∧
      Reachable (TcpServer.plain.runs 0) (s.alone false) := by
  obtain ⟨s, hs, hd, hsent⟩ := reachable_closesAndSends
  exact ⟨s, hd, hsent, alone_of_shared hs true, alone_of_shared hs false⟩

/-! ### No message after the close -/

end Dispatch

/-- No message callback is started after an entry of `closeConnection`. -/
def TcpConnection.Silent (c : TcpConnection) : Prop :=
  ∀ pre post, c.calls = pre ++ .closeConnection :: post → Call.connMsgCallback ∉ post

namespace TcpConnection

variable {c c' : TcpConnection} {more : List Call}

theorem Silent.append (h : c.Silent) (hcalls : c'.calls = c.calls ++ more)
    (hn : Call.connMsgCallback ∉ more) : c'.Silent := by
  intro pre post he
  rcases List.append_eq_append_iff.mp (hcalls.symm.trans he) with ⟨bs, rfl, hm⟩ | ⟨bs, hc, hm⟩
  · intro hmem
    apply hn
    rw [hm]
    exact List.mem_append_right _ (List.mem_cons_of_mem _ hmem)
  · cases bs with
    | nil =>
        intro hmem
        apply hn
        rw [← List.nil_append more, ← hm]
        exact List.mem_cons_of_mem _ hmem
    | cons call bs =>
        obtain ⟨rfl, rfl⟩ := List.cons.inj hm
        intro hmem
        rcases List.mem_append.mp hmem with hmem | hmem
        · exact h pre bs hc hmem
        · exact hn hmem

theorem Silent.of_notMem (h : Call.closeConnection ∉ c.calls) : c.Silent := by
  intro pre post he
  apply absurd _ h
  rw [he]
  exact List.mem_append_right _ (List.mem_cons_self ..)

end TcpConnection

namespace TcpServer

variable {server : TcpServer} {l : LoopId} {s t : Session} {a : Action}

/-- A connection that is to be closed is not read any more. -/
theorem silent_step (hc : s.conn.Closing) (h : s.conn.Silent) (hs : (server.runs l).Step s a t) :
    t.conn.Silent := by
  obtain ⟨hl, hs⟩ := hs
  obtain ⟨more, hcalls, -, hmsg, -⟩ := (step_spec hc.wired hl hs).calls
  by_cases hm : Call.connMsgCallback ∈ more
  · have hdel := hmsg hm
    cases a with
    | event revents time script write =>
        obtain ⟨hh, -⟩ := hdel
        have hopen : Call.closeConnection ∉ s.conn.calls := by
          rcases Event.handle_cases hc.wired.plain hl.2.2.interest hh with ⟨hr, -⟩ | ⟨-, hcb⟩
          · intro hreq
            rw [(hc.requested hl.1).mp hreq] at hr
            cases hr
          · exact absurd hcb hc.wired.writeCallback
        have hread := Session.event_cases hc.wired hl.2.2.interest hs
        rw [hh] at hread
        obtain ⟨hn, -⟩ | ⟨-, hr, -⟩ | ⟨hn, -⟩ | ⟨hn, -⟩ := hread
        · cases hn
        · obtain ⟨readBuffer, n, last, -, hcase⟩ := preConnMsgCallback_cases hr
          rcases hcase with ⟨-, -, he⟩ | ⟨-, -, -, he⟩ | ⟨-, -, -, he⟩
          · obtain ⟨-, he⟩ | ⟨-, he⟩ := closeWith_cases he
            · have hadd : t.conn.calls = s.conn.calls ++ [.closeConnection] := by rw [he]; rfl
              exact h.append hadd (by decide)
            · have hadd : t.conn.calls = s.conn.calls ++ .closeConnection ::
                  if server.connCloseCallback then [.connCloseCallback] else [] := by rw [he]; rfl
              refine h.append hadd ?_
              cases server.connCloseCallback <;> decide
          · exact .of_notMem (by rw [he]; exact hopen)
          · refine .of_notMem ?_
            rw [he]
            exact fun hmem => hopen ((mem_calls_log (by decide)).mp hmem)
        · cases hn
        · cases hn
    | _ => exact absurd hdel id
  · exact h.append hcalls hm

theorem silent_of_reachable (h : Reachable (server.runs l) s) : s.conn.Silent := by
  have hinit : ∀ s, (server.runs l).Init s → s.conn.Closing ∧ s.conn.Silent := by
    rintro _ ⟨time, rfl⟩
    exact ⟨.accepted l time, .of_notMem List.not_mem_nil⟩
  refine h.invariant_of ?_ (fun s hs => (hinit s hs).2) (fun _ _ _ => silent_step)
  intro s hr
  exact closing_of_reachable server.source_regular (fun s hs => (hinit s hs).1) hr

end TcpServer

namespace Dispatch

variable {ι : Type} [DecidableEq ι] {server : TcpServer} {l : LoopId} {s : Dispatch ι}

/-- **Nothing is read after the close** of a connection on a shared loop, in the runs in which no
callback closes a connection whose event waits in the batch. -/
theorem no_late_message (h : Reachable ((system ι server l).guarded Undisturbed) s) (i : ι) :
    (s.conns i).Silent := by
  obtain ⟨_, hr, -, rfl⟩ := (simulates i).reachable h
  exact TcpServer.silent_of_reachable hr

theorem no_late_message_closesAndSends : ∃ s : Dispatch Bool, (s.conns true).destroys = 1 ∧
    (s.conns true).Silent ∧ (s.conns false).Silent := by
  obtain ⟨s, hs, hd, -⟩ := reachable_closesAndSends
  exact ⟨s, hd, no_late_message hs true, no_late_message hs false⟩

/-- A connection is read; then a timer and the connection are reported together, and the timer
sends one byte and closes the connection. -/
def closesWaiting : List (Act Unit) :=
  [.poll [(.conn (), { EPOLLIN := true })], .handle 0 [.data [7]] (.accepted 0), .ret,
    .poll [(.timer 0, { EPOLLIN := true }), (.conn (), { EPOLLIN := true })],
    .handle 0 [] (.accepted 0), .send () [1], .activeClose (), .ret,
    .handle 0 [.data [8]] (.accepted 0)]

/-- The event that waits in the batch is handled with the mask it was reported for: the message
callback is started after the close, which no connection alone does. -/
theorem late_message : ∃ s : Dispatch Unit, Path (system Unit TcpServer.plain 0)
    { conns := fun _ => TcpServer.accepted 0 0 } closesWaiting s ∧
      (s.conns ()).destroys = 0 ∧ ¬ Reachable (TcpServer.plain.runs 0) (s.alone ()) := by
  let c₀ := TcpServer.accepted 0 0
  let s₁ : Dispatch Unit := { conns := fun _ => c₀, batch := [(.conn (), { EPOLLIN := true })] }
  obtain ⟨rb₁, hread₁⟩ := @step_plain Unit _ 0 s₁ () _ _ [.data [7]] (.accepted 0) rfl rfl rfl
    (by decide) (by decide)
  let c₁ : TcpConnection :=
    log { c₀.report { EPOLLIN := true } with data := some 0, readBuffer := rb₁ } .connMsgCallback
  have hne : (c₁.queue [1]).writeBuffer.bytes ≠ [] := by
    show (c₁.writeBuffer.append [1]).bytes ≠ []
    rw [ValidBuffer.bytes_append]
    exact List.append_ne_nil_of_right_ne_nil _ (by decide)
  have hclose : (c₁.queue [1]).activeClose TcpServer.plain.source 0 =
      some (c₁.queue [1]).deferClose :=
    (TcpServer.activeClose_of_owner rfl rfl).trans (closeWith_of_unsent hne)
  let s₂ : Dispatch Unit :=
    { conns := Function.update (Function.update (Function.update s₁.conns () c₁) ()
        (c₁.queue [1])) () (c₁.queue [1]).deferClose
      batch := [(.conn (), { EPOLLIN := true })] }
  obtain ⟨rb₂, hread₂⟩ := @step_plain Unit _ 0 s₂ () _ _ [.data [8]] (.accepted 0) rfl rfl rfl
    (by decide) (by decide)
  refine ⟨_, .cons ⟨rfl, ?_, rfl⟩ (.cons ⟨rfl, ?_, hread₁⟩ (.cons ⟨rfl, ?_, rfl⟩
    (.cons ⟨rfl, ?_, rfl⟩ (.cons ⟨rfl, ?_, rfl⟩ (.cons ⟨rfl, ?_, step_send (by decide)⟩
      (.cons ⟨rfl, ?_, step_activeClose hclose⟩ (.cons ⟨rfl, ?_, rfl⟩
        (.cons ⟨rfl, ?_, hread₂⟩ (.nil _))))))))), rfl, ?_⟩
  · exact poll_legal ⟨rfl, rfl⟩ (by decide) (by simp) (fun _ => rfl) (fun _ => rfl)
  · exact handle_legal rfl (by decide)
  · exact rfl
  · exact poll_legal ⟨rfl, rfl⟩ (by decide) (by simp) (fun _ => rfl) (fun _ => rfl)
  · exact handle_legal rfl trivial
  · exact ⟨rfl, rfl, by decide⟩
  · exact ⟨rfl, rfl⟩
  · exact rfl
  · exact handle_legal rfl (by decide)
  · intro hr
    have hsilent := TcpServer.silent_of_reachable hr
    exact hsilent [.connMsgCallback] [.connMsgCallback] rfl (List.mem_singleton.mpr rfl)

end Dispatch

end Dagger
