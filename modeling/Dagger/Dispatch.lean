import Dagger.Session
import Mathlib.Data.List.Nodup
import Mathlib.Logic.Function.Basic

/-! # The batch of `EventLoop::start`

One iteration of the loop handles the pointers that `Epoller::poll` returned.  The batch is a
snapshot: a callback may close a connection of the same loop whose event is still waiting in it,
and `TcpConnection::destroy` frees that event at once.

`handles_live` proves that this is the only way for the loop to handle a freed event, and that
it always ends so. -/

namespace Dagger

open TcpConnection Transition

/-- What an `Event *` belongs to.  Only the events of connections are ever freed. -/
inductive EventPtr (ι : Type) where
  | conn (i : ι)
  | timer (k : ℕ)
  | listen
  | wakeUp
deriving DecidableEq

/-- The thread of one loop of a server; `ι` is the type of the loop's connections. -/
structure Dispatch (ι : Type) where
  conns : ι → TcpConnection
  /-- What is left of the batch.  The flags that `poll` stores in an event wait here with it. -/
  batch : List (EventPtr ι × EpollFlags) := []
  /-- A user callback or a task is running. -/
  userCode : Bool := false
  /-- `handle()` was called on a freed event. -/
  fault : Bool := false

namespace Dispatch

variable {ι : Type} [DecidableEq ι]

inductive Act (ι : Type) where
  | poll (batch : List (EventPtr ι × EpollFlags))
  /-- A task of `runInLoop` starts. -/
  | task
  /-- `handle()` on the next event, with the results its system calls meet. -/
  | handle (timeInProcess : UInt32) (script : List ReadResult) (write : WriteResult)
  | send (i : ι) (str : List Byte)
  | activeClose (i : ι)
  /-- The user's code returns. -/
  | ret

/-- `handle()` on the event of connection `i`.  User code runs if a message callback was started,
or a close callback: the calls this one makes on other connections follow the close here. -/
def handleConn (server : TcpServer) (l : LoopId) (i : ι) (revents : EpollFlags)
    (timeInProcess : UInt32) (script : List ReadResult) (write : WriteResult) (s : Dispatch ι) :
    Option (Dispatch ι) := do
  let r ← Session.handle server.source l revents timeInProcess script write { conn := s.conns i }
  some { s with
    conns := Function.update s.conns i r.conn
    userCode := r.control ≠ .loop || (server.connCloseCallback && 0 < r.conn.destroys) }

def step (server : TcpServer) (l : LoopId) (s : Dispatch ι) : Act ι → Option (Dispatch ι)
  | .poll batch => some { s with batch }
  | .task => some { s with userCode := true }
  | .handle timeInProcess script write =>
      match s.batch with
      | [] => none
      | (.wakeUp, _) :: batch => some { s with batch }
      | (.timer _, _) :: batch => some { s with batch, userCode := true }
      | (.listen, _) :: batch => some { s with batch, userCode := true }
      | (.conn i, revents) :: batch =>
          if 0 < (s.conns i).destroys then some { s with batch, fault := true }
          else handleConn server l i revents timeInProcess script write { s with batch }
  | .send i str => do
      let c ← (s.conns i).sendStr str
      some { s with conns := Function.update s.conns i c }
  | .activeClose i => do
      let c ← (s.conns i).activeClose server.source l
      some { s with conns := Function.update s.conns i c }
  | .ret => some { s with userCode := false }

/-- The event of connection `i` waits in the batch. -/
def Waits (s : Dispatch ι) (i : ι) : Prop := .conn i ∈ s.batch.map Prod.fst

/-- The loop's thread is where it takes the next step by itself. -/
def Idle (s : Dispatch ι) : Prop := s.batch = [] ∧ s.userCode = false

/-- The kernel returns each descriptor once, and none that was removed; user code does not touch
a connection after its `destroy()`. -/
def Act.Legal (s : Dispatch ι) : Act ι → Prop
  | .poll batch => s.Idle ∧ (batch.map Prod.fst).Nodup ∧ ∀ i revents, (.conn i, revents) ∈ batch →
      (s.conns i).destroys = 0 ∧ (s.conns i).event.events.Reportable revents
  | .task => s.Idle
  | .handle _ script write => s.userCode = false ∧ Buffer.Deliverable 4096 script ∧
      ∀ i revents batch, s.batch = (.conn i, revents) :: batch →
        write.Possible (s.conns i).writeBuffer.bytes.length
  | .send i str => s.userCode = true ∧ (s.conns i).destroys = 0 ∧ str ≠ []
  | .activeClose i => s.userCode = true ∧ (s.conns i).destroys = 0
  | .ret => s.userCode = true

/-- The runs of loop `l`; nothing is said about what follows a fault. -/
def system (ι : Type) [DecidableEq ι] (server : TcpServer) (l : LoopId) :
    Transition.System (Dispatch ι) (Act ι) where
  Init s := ∃ time : ι → UInt32, s = { conns := fun i => TcpServer.accepted l (time i) }
  Step s a t := s.fault = false ∧ a.Legal s ∧ s.step server l a = some t

/-- A connection whose event waits in the batch is closed with unsent bytes only. -/
def Keeps (s : Dispatch ι) (a : Act ι) : Prop :=
  ∀ i, a = .activeClose i → s.Waits i → (s.conns i).writeBuffer.bytes ≠ []

variable {server : TcpServer} {l : LoopId} {s t : Dispatch ι} {a : Act ι} {i : ι}

/-! ### What a step can do -/

theorem step_send {str : List Byte} (h : str ≠ []) : s.step server l (.send i str) =
    some { s with conns := Function.update s.conns i ((s.conns i).queue str) } := by
  simp only [step, sendStr_eq h, Option.bind_eq_bind, Option.bind_some]

theorem step_activeClose {c : TcpConnection}
    (h : (s.conns i).activeClose server.source l = some c) : s.step server l (.activeClose i) =
      some { s with conns := Function.update s.conns i c } := by
  simp only [step, h, Option.bind_eq_bind, Option.bind_some]

/-- A read event on a live connection. -/
theorem step_read {revents : EpollFlags} {batch : List (EventPtr ι × EpollFlags)} {time : UInt32}
    {script : List ReadResult} {write : WriteResult} {c : TcpConnection} {control : Control}
    (hb : s.batch = (.conn i, revents) :: batch) (hd : (s.conns i).destroys = 0)
    (hh : ((s.conns i).report revents).event.handle = some .preConnMsgCallback)
    (h : server.preConnMsgCallback l time script ((s.conns i).report revents) = some (c, control)) :
    s.step server l (.handle time script write) = some { s with
      conns := Function.update s.conns i c
      batch := batch
      userCode := control ≠ .loop || (server.connCloseCallback && 0 < c.destroys) } := by
  have hs : Session.handle server.source l revents time script write { conn := s.conns i } =
      some { conn := c, control := control } := Session.step_read hh h
  unfold step
  simp only [hb, hd, Nat.lt_irrefl, if_false, handleConn, hs, Option.bind_eq_bind, Option.bind_some]

/-- A close that succeeds defers the close, or destroys the connection. -/
theorem activeClose_cases (h : s.step server l (.activeClose i) = some t) :
    ∃ c, t = { s with conns := Function.update s.conns i c } ∧
      (((s.conns i).writeBuffer.bytes ≠ [] ∧ c.destroys = (s.conns i).destroys) ∨
        ((s.conns i).writeBuffer.bytes = [] ∧ c.destroys = (s.conns i).destroys + 1)) := by
  obtain ⟨c, hc, h⟩ := Option.bind_eq_some_iff.mp h
  refine ⟨c, (Option.some.inj h).symm, ?_⟩
  obtain ⟨hb, rfl⟩ | ⟨hb, rfl⟩ := closeWith_cases (TcpServer.closeConnection_eq hc)
  · exact Or.inl ⟨hb, rfl⟩
  · exact Or.inr ⟨hb, rfl⟩

/-- `handle()` takes the first event off the batch: a freed one, or one that is live, and then
no connection but its own changes. -/
theorem handle_cases {time : UInt32} {script : List ReadResult} {write : WriteResult}
    (h : s.step server l (.handle time script write) = some t) :
    ∃ p revents, s.batch = (p, revents) :: t.batch ∧
      ((∃ i, p = .conn i ∧ 0 < (s.conns i).destroys ∧ t.fault = true) ∨
        ((∀ i, p = .conn i → (s.conns i).destroys = 0) ∧ t.fault = s.fault ∧
          ∀ j, p ≠ .conn j → t.conns j = s.conns j)) := by
  unfold step at h
  dsimp only at h
  split at h
  · cases h
  · rename_i revents batch hb
    obtain rfl := Option.some.inj h
    exact ⟨_, revents, hb, Or.inr ⟨nofun, rfl, fun _ _ => rfl⟩⟩
  · rename_i k revents batch hb
    obtain rfl := Option.some.inj h
    exact ⟨_, revents, hb, Or.inr ⟨nofun, rfl, fun _ _ => rfl⟩⟩
  · rename_i revents batch hb
    obtain rfl := Option.some.inj h
    exact ⟨_, revents, hb, Or.inr ⟨nofun, rfl, fun _ _ => rfl⟩⟩
  · rename_i i revents batch hb
    split_ifs at h with hd
    · obtain rfl := Option.some.inj h
      exact ⟨_, revents, hb, Or.inl ⟨i, rfl, hd, rfl⟩⟩
    · obtain ⟨r, -, h⟩ := Option.bind_eq_some_iff.mp h
      obtain rfl := Option.some.inj h
      refine ⟨_, revents, hb, Or.inr ⟨?_, rfl, ?_⟩⟩
      · rintro _ ⟨⟩
        omega
      · intro j hj
        have hij : j ≠ i := fun he => hj (by rw [he])
        exact Function.update_of_ne hij _ _

/-! ### Batches that stay live -/

/-- No event is in the batch twice or freed. -/
structure Live (s : Dispatch ι) : Prop where
  nodup : (s.batch.map Prod.fst).Nodup
  live : ∀ i, s.Waits i → (s.conns i).destroys = 0
  fault : s.fault = false

/-- A change of one connection that destroys none in the batch. -/
theorem Live.update (h : s.Live) {c : TcpConnection}
    (hc : s.Waits i → c.destroys = (s.conns i).destroys) :
    Live { s with conns := Function.update s.conns i c } := by
  refine ⟨h.nodup, fun j hj => ?_, h.fault⟩
  have hw : s.Waits j := hj
  show (Function.update s.conns i c j).destroys = 0
  by_cases hij : j = i
  · subst hij
    rw [Function.update_self, hc hw]
    exact h.live j hw
  · rw [Function.update_of_ne hij]
    exact h.live j hw

theorem live_step (h : s.Live) (hs : ((system ι server l).guarded Keeps).Step s a t) : t.Live := by
  obtain ⟨⟨-, hl, hs⟩, hguard⟩ := hs
  cases a with
  | poll batch =>
      obtain rfl := Option.some.inj hs
      obtain ⟨-, hnodup, hlive⟩ := hl
      refine ⟨hnodup, fun i hi => ?_, h.fault⟩
      obtain ⟨⟨p, revents⟩, hmem, rfl⟩ := List.mem_map.mp hi
      exact (hlive i revents hmem).1
  | task =>
      obtain rfl := Option.some.inj hs
      exact ⟨h.nodup, h.live, h.fault⟩
  | handle time script write =>
      obtain ⟨p, revents, hb, hcase⟩ := handle_cases hs
      have hnodup := h.nodup
      have hlive := h.live
      unfold Waits at hlive
      rw [hb] at hnodup hlive
      simp only [List.map_cons, List.nodup_cons] at hnodup
      simp only [List.map_cons, List.mem_cons] at hlive
      rcases hcase with ⟨i, rfl, hd, -⟩ | ⟨-, hf, hconns⟩
      · have := hlive i (Or.inl rfl)
        omega
      · refine ⟨hnodup.2, fun j hj => ?_, hf.trans h.fault⟩
        have hpj : p ≠ .conn j := by
          rintro rfl
          exact hnodup.1 hj
        rw [hconns j hpj]
        exact hlive j (Or.inr hj)
  | send i str =>
      rw [step_send hl.2.2] at hs
      obtain rfl := Option.some.inj hs
      exact h.update fun _ => rfl
  | activeClose i =>
      obtain ⟨c, rfl, hc⟩ := activeClose_cases hs
      apply h.update
      intro hw
      rcases hc with ⟨-, hd⟩ | ⟨hb, -⟩
      · exact hd
      · exact absurd hb (hguard i rfl hw)
  | ret =>
      obtain rfl := Option.some.inj hs
      exact ⟨h.nodup, h.live, h.fault⟩

theorem live_of_reachable (h : Reachable ((system ι server l).guarded Keeps) s) : s.Live := by
  apply h.invariant
  · rintro _ ⟨time, rfl⟩
    exact ⟨List.nodup_nil, nofun, rfl⟩
  · intro s a t
    exact live_step

/-! ### Batches that are lost -/

/-- A freed event was handled or waits in the batch. -/
def Doomed (s : Dispatch ι) : Prop := s.fault = true ∨ ∃ i, s.Waits i ∧ 0 < (s.conns i).destroys

theorem doomed_step (h : s.Doomed) (hs : (system ι server l).Step s a t) : t.Doomed := by
  obtain ⟨hf, hl, hs⟩ := hs
  obtain ⟨i, hw, hd⟩ : ∃ i, s.Waits i ∧ 0 < (s.conns i).destroys := by
    apply h.resolve_left
    rw [hf]
    exact Bool.false_ne_true
  have hne : s.batch ≠ [] := by
    intro hb
    unfold Waits at hw
    rw [hb] at hw
    cases hw
  -- a live connection is another one
  have hupdate (j : ι) (c : TcpConnection) (hj : (s.conns j).destroys = 0) :
      Doomed { s with conns := Function.update s.conns j c } := by
    have hij : i ≠ j := by
      rintro rfl
      omega
    refine Or.inr ⟨i, hw, ?_⟩
    show 0 < (Function.update s.conns j c i).destroys
    rw [Function.update_of_ne hij]
    exact hd
  cases a with
  | poll batch => exact absurd hl.1.1 hne
  | task => exact absurd hl.1 hne
  | handle time script write =>
      obtain ⟨p, revents, hb, hcase⟩ := handle_cases hs
      rcases hcase with ⟨-, -, -, hft⟩ | ⟨hlive, -, hconns⟩
      · exact Or.inl hft
      · have hpi : p ≠ .conn i := by
          intro hp
          have := hlive i hp
          omega
        unfold Waits at hw
        rw [hb, List.map_cons, List.mem_cons] at hw
        refine Or.inr ⟨i, hw.resolve_left (Ne.symm hpi), ?_⟩
        rw [hconns i hpi]
        exact hd
  | send j str =>
      rw [step_send hl.2.2] at hs
      obtain rfl := Option.some.inj hs
      exact hupdate j _ hl.2.1
  | activeClose j =>
      obtain ⟨c, rfl, -⟩ := activeClose_cases hs
      exact hupdate j c hl.2
  | ret =>
      obtain rfl := Option.some.inj hs
      exact Or.inr ⟨i, hw, hd⟩

theorem doomed_path {as : List (Act ι)} (h : s.Doomed) (hp : Path (system ι server l) s as t) :
    t.Doomed := by
  induction hp with
  | nil => exact h
  | cons hs _ ih => exact ih (doomed_step h hs)

/-- Closing a connection at once while its event waits dooms the batch. -/
theorem doomed_of_not_keeps (hs : (system ι server l).Step s a t) (hk : ¬ s.Keeps a) :
    t.Doomed := by
  unfold Keeps at hk
  push Not at hk
  obtain ⟨i, rfl, hw, hb⟩ := hk
  obtain ⟨c, rfl, hc⟩ := activeClose_cases hs.2.2
  rcases hc with ⟨hne, -⟩ | ⟨-, hd⟩
  · exact absurd hb hne
  · refine Or.inr ⟨i, hw, ?_⟩
    show 0 < (Function.update s.conns i c i).destroys
    rw [Function.update_self, hd]
    exact Nat.succ_pos _

theorem keeps_of_path {as : List (Act ι)} (hp : Path (system ι server l) s as t)
    (hb : t.batch = []) (hf : t.fault = false) :
    Path ((system ι server l).guarded Keeps) s as t := by
  have hdoomed : ¬ t.Doomed := by
    rintro (hft | ⟨i, hw, -⟩)
    · rw [hf] at hft
      cases hft
    · unfold Waits at hw
      rw [hb] at hw
      cases hw
  induction hp with
  | nil => exact .nil _
  | cons hs hp ih =>
      refine .cons ⟨hs, ?_⟩ (ih hb hf hdoomed)
      by_contra hk
      exact hdoomed (doomed_path (doomed_of_not_keeps hs hk) hp)

/-- **`handle()` is called on live events only** in every run in which no callback closes a
connection with an empty buffer while its event waits in the batch.  A run that gets through its
last batch has no fault if and only if it is one of these. -/
theorem handles_live :
    (∀ s, Reachable ((system ι server l).guarded Keeps) s → s.fault = false) ∧
    ∀ s as t, (system ι server l).Init s → Path (system ι server l) s as t → t.batch = [] →
      (t.fault = false ↔ Path ((system ι server l).guarded Keeps) s as t) := by
  refine ⟨fun _ h => (live_of_reachable h).fault, fun s as t hinit hp hb => ⟨?_, ?_⟩⟩
  · exact keeps_of_path hp hb
  · intro hk
    exact (live_of_reachable (hk.reachable (.init hinit))).fault

/-! ### Two runs -/

omit [DecidableEq ι] in
/-- Every connection is alive, and those in the batch are reported as readable. -/
theorem poll_legal {batch : List (EventPtr ι × EpollFlags)} (h : s.Idle)
    (hnodup : (batch.map Prod.fst).Nodup)
    (hflags : ∀ i revents, (.conn i, revents) ∈ batch → revents = { EPOLLIN := true })
    (hd : ∀ i, (s.conns i).destroys = 0) (hr : ∀ i, (s.conns i).event.isReadable = true) :
    (Act.poll batch).Legal s := by
  refine ⟨h, hnodup, fun i revents hmem => ⟨hd i, ?_⟩⟩
  rw [hflags i revents hmem]
  exact EpollFlags.reportable_read (hr i)

omit [DecidableEq ι] in
theorem handle_legal {time : UInt32} {script : List ReadResult} (hu : s.userCode = false)
    (hd : Buffer.Deliverable 4096 script) :
    (Act.handle time script (.accepted 0)).Legal s :=
  ⟨hu, hd, fun _ _ _ _ => Nat.zero_le _⟩

/-- A timer and the event of the only connection are reported, and the timer sends one byte. -/
def timerSends : List (Act Unit) :=
  [.poll [(.timer 0, { EPOLLIN := true }), (.conn (), { EPOLLIN := true })],
    .handle 0 [] (.accepted 0), .send () [1], .ret, .handle 0 [.data [7]] (.accepted 0)]

/-- Timer and connection are handled, and neither event was freed. -/
theorem handles_live_timerSends : ∃ s : Dispatch Unit,
    Path ((system Unit TcpServer.waiting 0).guarded Keeps)
      { conns := fun _ => TcpServer.accepted 0 0 } timerSends s ∧ s.fault = false := by
  let c₁ := ((TcpServer.accepted 0 0).queue [1]).report { EPOLLIN := true }
  obtain ⟨rb, hread⟩ : ∃ readBuffer : ValidBuffer IO_BUFFER_SIZE,
      TcpServer.waiting.preConnMsgCallback 0 0 [.data [7]] c₁ =
        some ({ c₁ with data := some 0, readBuffer }, .loop) :=
    TcpServer.waiting_read 0 c₁ (by decide) (by decide)
  have hinit : (system Unit TcpServer.waiting 0).Init
      { conns := fun _ => TcpServer.accepted 0 0 } := ⟨fun _ => 0, rfl⟩
  have hp : ∃ s : Dispatch Unit, Path (system Unit TcpServer.waiting 0)
      { conns := fun _ => TcpServer.accepted 0 0 } timerSends s ∧ s.batch = [] ∧
        s.fault = false := by
    refine ⟨_, .cons ⟨rfl, ?_, rfl⟩ (.cons ⟨rfl, ?_, rfl⟩ (.cons ⟨rfl, ?_, step_send (by decide)⟩
      (.cons ⟨rfl, ?_, rfl⟩ (.cons ⟨rfl, ?_, step_read rfl rfl rfl hread⟩ (.nil _))))), rfl, rfl⟩
    · exact poll_legal ⟨rfl, rfl⟩ (by decide) (by simp) (fun _ => rfl) (fun _ => rfl)
    · exact handle_legal rfl trivial
    · exact ⟨rfl, rfl, by decide⟩
    · exact rfl
    · exact handle_legal rfl (by decide)
  obtain ⟨s, hp, hb, hf⟩ := hp
  have hk := (handles_live.2 _ _ _ hinit hp hb).mp hf
  exact ⟨s, hk, handles_live.1 s (hk.reachable (.init hinit))⟩

/-- A connection is read once; then a timer and the connection are reported together, and the
timer closes the connection. -/
def timerCloses : List (Act Unit) :=
  [.poll [(.conn (), { EPOLLIN := true })], .handle 0 [.data [7]] (.accepted 0),
    .poll [(.timer 0, { EPOLLIN := true }), (.conn (), { EPOLLIN := true })],
    .handle 0 [] (.accepted 0), .activeClose (), .ret, .handle 0 [.data [7]] (.accepted 0)]

/-- In this run `handle()` is called on the event that the timer's callback freed. -/
theorem handles_freed : ∃ s : Dispatch Unit, Path (system Unit TcpServer.waiting 0)
    { conns := fun _ => TcpServer.accepted 0 0 } timerCloses s ∧ s.fault = true := by
  let c₀ := (TcpServer.accepted 0 0).report { EPOLLIN := true }
  obtain ⟨rb, hread⟩ : ∃ readBuffer : ValidBuffer IO_BUFFER_SIZE,
      TcpServer.waiting.preConnMsgCallback 0 0 [.data [7]] c₀ =
        some ({ c₀ with data := some 0, readBuffer }, .loop) :=
    TcpServer.waiting_read 0 c₀ (by decide) (by decide)
  let c₁ : TcpConnection := { c₀ with data := some 0, readBuffer := rb }
  have hclose : c₁.activeClose TcpServer.waiting.source 0 = some (c₁.closeNow false true) :=
    (TcpServer.activeClose_of_owner rfl rfl).trans (closeWith_of_empty rfl)
  refine ⟨_, .cons ⟨rfl, ?_, rfl⟩ (.cons ⟨rfl, ?_, step_read rfl rfl rfl hread⟩
    (.cons ⟨rfl, ?_, rfl⟩ (.cons ⟨rfl, ?_, rfl⟩ (.cons ⟨rfl, ?_, step_activeClose hclose⟩
      (.cons ⟨rfl, ?_, rfl⟩ (.cons ⟨rfl, ?_, rfl⟩ (.nil _))))))), rfl⟩
  · exact poll_legal ⟨rfl, rfl⟩ (by decide) (by simp) (fun _ => rfl) (fun _ => rfl)
  · exact handle_legal rfl (by decide)
  · exact poll_legal ⟨rfl, rfl⟩ (by decide) (by simp) (fun _ => rfl) (fun _ => rfl)
  · exact handle_legal rfl trivial
  · exact ⟨rfl, rfl⟩
  · exact rfl
  · exact handle_legal rfl (by decide)

end Dispatch

end Dagger
