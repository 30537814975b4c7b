import Dagger.ServerStep
import Mathlib.Logic.Function.Basic

/-! # `TimerWheelingPolicy`

The release of connections when `IDLE_CONNECTIONS_MANAGER` is defined
(`src/TimeWheeling.h`).  Once a second the main thread looks at the connections in a wheel and
gives the closed and the idle ones to their owners' loops as tasks, which delete them; in between
the owners handle socket events.

An `IdleConnectionsManager` is the main thread, the wheel, the connections and the threads that
own them; every access of one thread to what another may change is a step.  A task is pushed in
one step here: whether the loop is woken for it makes no difference to what it does. -/

namespace Dagger

abbrev MAX_IDLE_SECONDS : ℕ := 600

/-- What the wheel binds for `runInLoop`. -/
inductive Task (ι : Type) where
  | deleteConn (c : ι)
  | destoryThenDeleteConn (c : ι)
deriving DecidableEq

def Task.conn {ι : Type} : Task ι → ι
  | deleteConn c => c
  | destoryThenDeleteConn c => c

structure TimerWheelingPolicy (ι : Type) where
  wheeling : Fin MAX_IDLE_SECONDS → List ι := fun _ => []
  curBucketIndex : Fin MAX_IDLE_SECONDS := 0

namespace TimerWheelingPolicy

variable {ι : Type}

def checkIndex (w : TimerWheelingPolicy ι) : Fin MAX_IDLE_SECONDS :=
  ⟨(w.curBucketIndex + MAX_IDLE_SECONDS - 1) % MAX_IDLE_SECONDS, Nat.mod_lt _ (by decide)⟩

def addNewConnection (c : ι) (w : TimerWheelingPolicy ι) : TimerWheelingPolicy ι :=
  { w with wheeling :=
      Function.update w.wheeling w.curBucketIndex (w.wheeling w.curBucketIndex ++ [c]) }

/-- `wheeling_[checkIndex].clear()`. -/
def clear (w : TimerWheelingPolicy ι) : TimerWheelingPolicy ι :=
  { w with wheeling := Function.update w.wheeling w.checkIndex [] }

def timeElasped (w : TimerWheelingPolicy ι) : TimerWheelingPolicy ι :=
  { w with curBucketIndex :=
      ⟨(w.curBucketIndex + 1) % MAX_IDLE_SECONDS, Nat.mod_lt _ (by decide)⟩ }

end TimerWheelingPolicy

/-- Where the main thread stands in `eraseIdleConnections`, with the rest of the bucket. -/
inductive WheelPc (ι : Type) where
  | idle
  | scan (rest : List ι)
  /-- The state of `c` was read, and it was not `CLOSED`. -/
  | notClosed (c : ι) (rest : List ι)
  /-- The state of `c` was read again, and it was `ESTABLISHED`. -/
  | established (c : ι) (rest : List ι)
  /-- About to push `task`. -/
  | decided (task : Task ι) (rest : List ι)

/-- Where an owner's thread stands in `EventLoop::start`. -/
inductive OwnerPc (ι : Type) where
  | poll
  /-- Handling the events returned; the flags that `poll` stores in an event wait with it. -/
  | handling (batch : List (ι × EpollFlags))
  /-- In the message callback of `c`. -/
  | callback (c : ι) (batch : List (ι × EpollFlags))
  /-- Running the tasks swapped out. -/
  | running (curTask : List (Task ι))

namespace OwnerPc

variable {ι : Type}

def batch : OwnerPc ι → List (ι × EpollFlags)
  | handling batch => batch
  | callback _ batch => batch
  | _ => []

def curTask : OwnerPc ι → List (Task ι)
  | running curTask => curTask
  | _ => []

end OwnerPc

structure OwnerLoop (ι : Type) where
  pc : OwnerPc ι := .poll
  tasks : List (Task ι) := []

/-- The tasks that were pushed and have not been run. -/
def OwnerLoop.queued {ι : Type} (o : OwnerLoop ι) : List (Task ι) := o.pc.curTask ++ o.tasks

structure IdleConnectionsManager (ι : Type) where
  conns : ι → TcpConnection := fun _ => {}
  accepted : ι → Bool := fun _ => false
  timeInProcess : UInt32 := 0
  wheelPolicy : TimerWheelingPolicy ι := {}
  main : WheelPc ι := .idle
  loops : LoopId → OwnerLoop ι := fun _ => {}
  /-- An event or a connection was used after it was freed. -/
  fault : Bool := false

namespace IdleConnectionsManager

/-- No connections yet, at some value of the counter. -/
def start {ι : Type} (time : UInt32) : IdleConnectionsManager ι := { timeInProcess := time }

variable {ι : Type} [DecidableEq ι]

inductive Act (ι : Type) where
  /-- `acceptCallback`, up to where the connection is readable. -/
  | accept (c : ι) (l : LoopId)
  /-- The timer's read callback, up to the scan. -/
  | tick
  /-- The next step of `eraseIdleConnections`. -/
  | wheel
  | poll (l : LoopId) (batch : List (ι × EpollFlags))
  /-- `handle()` on the next event of loop `l`, with the results its system calls meet. -/
  | event (l : LoopId) (script : List ReadResult) (write : WriteResult)
  /-- The message callback that runs on loop `l` sends on a connection of the loop. -/
  | send (l : LoopId) (c : ι) (str : List Byte)
  /-- The message callback that runs on loop `l` closes its connection. -/
  | activeClose (l : LoopId)
  | ret (l : LoopId)
  | swap (l : LoopId)
  | runTask (l : LoopId)
  | endTasks (l : LoopId)

variable (s : IdleConnectionsManager ι)

/-- `now - conn->lastReceiveTime > MAX_IDLE_SECONDS`, in `uint32_t`. -/
def isIdle (c : ι) : Bool :=
  MAX_IDLE_SECONDS < (s.timeInProcess - (s.conns c).lastReceiveTime).toNat

def setConn (c : ι) (conn : TcpConnection) : IdleConnectionsManager ι :=
  { s with conns := Function.update s.conns c conn }

def setPc (l : LoopId) (pc : OwnerPc ι) : IdleConnectionsManager ι :=
  { s with loops := Function.update s.loops l { s.loops l with pc } }

def runInLoop (l : LoopId) (task : Task ι) : IdleConnectionsManager ι :=
  let o := s.loops l
  { s with loops := Function.update s.loops l { o with tasks := o.tasks ++ [task] } }

def acceptCallback (c : ι) (l : LoopId) : IdleConnectionsManager ι :=
  { s.setConn c (TcpServer.accepted l s.timeInProcess) with
    accepted := Function.update s.accepted c true
    wheelPolicy := s.wheelPolicy.addNewConnection c }

/-- The main thread reads a field of `c` and goes on as `t`. -/
def use (c : ι) (t : IdleConnectionsManager ι) : IdleConnectionsManager ι :=
  if 0 < (s.conns c).deletes then { s with fault := true } else t

/-- The steps of `eraseIdleConnections`. -/
def wheelStep : Option (IdleConnectionsManager ι) :=
  match s.main with
  | .idle => none
  | .scan [] => some { s with wheelPolicy := s.wheelPolicy.clear.timeElasped, main := .idle }
  | .scan (c :: rest) => some (s.use c { s with main :=
      if (s.conns c).state = .CLOSED then .decided (.deleteConn c) rest else .notClosed c rest })
  | .notClosed c rest => some (s.use c { s with main :=
      if (s.conns c).state = .ESTABLISHED then .established c rest else .scan rest })
  | .established c rest => some (s.use c (
      if s.isIdle c then { s with main := .decided (.destoryThenDeleteConn c) rest }
      else { s with wheelPolicy := s.wheelPolicy.addNewConnection c, main := .scan rest }))
  | .decided task rest => some (s.use task.conn
      { s.runInLoop (s.conns task.conn).loop task with main := .scan rest })

/-- The event of `c` is freed, or `c` itself. -/
def Freed (c : ι) : Prop := 0 < (s.conns c).destroys ∨ 0 < (s.conns c).deletes

instance (c : ι) : Decidable (s.Freed c) := inferInstanceAs (Decidable (_ ∨ _))

/-- `handle()` on the event of `c`, which is the first of the batch. -/
def handleConn (server : TcpServer) (l : LoopId) (c : ι) (revents : EpollFlags)
    (batch : List (ι × EpollFlags)) (script : List ReadResult) (write : WriteResult) :
    Option (IdleConnectionsManager ι) := do
  let r ← Session.handle server.source l revents s.timeInProcess script write { conn := s.conns c }
  some ((s.setPc l (if r.control = .loop then .handling batch else .callback c batch)).setConn c
    r.conn)

/-- One task; it is applied even where it frees what is freed already. -/
def runConnTask : Task ι → IdleConnectionsManager ι
  | .deleteConn c =>
      { s.setConn c (s.conns c).delete with fault := s.fault || 0 < (s.conns c).deletes }
  | .destoryThenDeleteConn c =>
      { s.setConn c (s.conns c).destroy.delete with fault := s.fault || s.Freed c }

def step (server : TcpServer) : Act ι → Option (IdleConnectionsManager ι)
  | .accept c l => some (s.acceptCallback c l)
  | .tick => some { s with
      timeInProcess := s.timeInProcess + 1
      main := .scan (s.wheelPolicy.wheeling s.wheelPolicy.checkIndex) }
  | .wheel => s.wheelStep
  | .poll l batch => some (s.setPc l (.handling batch))
  | .event l script write =>
      match (s.loops l).pc with
      | .handling ((c, revents) :: batch) =>
          if s.Freed c then some { s with fault := true }
          else s.handleConn server l c revents batch script write
      | _ => none
  | .send _ c str => do
      let conn ← (s.conns c).sendStr str
      some (s.setConn c conn)
  | .activeClose l =>
      match (s.loops l).pc with
      | .callback c _ => do
          let conn ← (s.conns c).activeClose server.source l
          some (s.setConn c conn)
      | _ => none
  | .ret l =>
      match (s.loops l).pc with
      | .callback _ batch => some (s.setPc l (.handling batch))
      | _ => none
  | .swap l =>
      match (s.loops l).pc with
      | .handling [] => some { s with
          loops := Function.update s.loops l { pc := .running (s.loops l).tasks } }
      | _ => none
  | .runTask l =>
      match (s.loops l).pc with
      | .running (task :: curTask) => some ((s.setPc l (.running curTask)).runConnTask task)
      | _ => none
  | .endTasks l =>
      match (s.loops l).pc with
      | .running [] => some (s.setPc l .poll)
      | _ => none

/-- What the kernel reports and answers, and what user code does with connections. -/
def Act.Legal : Act ι → Prop
  | .accept c _ => s.main = .idle ∧ s.accepted c = false
  | .tick => s.main = .idle
  | .poll l batch => (s.loops l).pc = .poll ∧ (batch.map Prod.fst).Nodup ∧
      ∀ c revents, (c, revents) ∈ batch → s.accepted c = true ∧ (s.conns c).loop = l ∧
        (s.conns c).destroys = 0 ∧ (s.conns c).event.events.Reportable revents
  | .event l script write => Buffer.Deliverable 4096 script ∧
      ∀ c revents batch, (s.loops l).pc = .handling ((c, revents) :: batch) →
        write.Possible (s.conns c).writeBuffer.bytes.length
  | .send l c str => (∃ c' batch, (s.loops l).pc = .callback c' batch) ∧ s.accepted c = true ∧
      (s.conns c).loop = l ∧ (s.conns c).destroys = 0 ∧ str ≠ []
  | .activeClose l => ∃ c batch, (s.loops l).pc = .callback c batch ∧ (s.conns c).destroys = 0
  | _ => True

/-- The interleavings of the main thread with the owners' threads, from a server without
connections; nothing is said about what follows a fault. -/
def system (ι : Type) [DecidableEq ι] (server : TcpServer) :
    Transition.System (IdleConnectionsManager ι) (Act ι) where
  Init s := s = {}
  Step s a t := s.fault = false ∧ a.Legal s ∧ s.step server a = some t

/-! ### What a step of an owner does -/

section Steps

variable {s t : IdleConnectionsManager ι} {server : TcpServer} {l : LoopId}

theorem step_event {script : List ReadResult} {write : WriteResult}
    (hs : s.step server (.event l script write) = some t) :
    ∃ c revents batch, (s.loops l).pc = .handling ((c, revents) :: batch) ∧
      ((s.Freed c ∧ t = { s with fault := true }) ∨
        (¬ s.Freed c ∧ s.handleConn server l c revents batch script write = some t)) := by
  unfold step at hs
  dsimp only at hs
  split at hs
  · rename_i c revents batch hpc
    refine ⟨c, revents, batch, hpc, ?_⟩
    by_cases hf : s.Freed c
    · rw [if_pos hf] at hs
      exact Or.inl ⟨hf, (Option.some.inj hs).symm⟩
    · rw [if_neg hf] at hs
      exact Or.inr ⟨hf, hs⟩
  · cases hs

theorem step_activeClose (hs : s.step server (.activeClose l) = some t) :
    ∃ c batch conn, (s.loops l).pc = .callback c batch ∧
      (s.conns c).activeClose server.source l = some conn ∧ t = s.setConn c conn := by
  unfold step at hs
  dsimp only at hs
  split at hs
  · rename_i c batch hpc
    obtain ⟨conn, hc, hs⟩ := Option.bind_eq_some_iff.mp hs
    exact ⟨c, batch, conn, hpc, hc, (Option.some.inj hs).symm⟩
  · cases hs

theorem step_ret (hs : s.step server (.ret l) = some t) :
    ∃ c batch, (s.loops l).pc = .callback c batch ∧ t = s.setPc l (.handling batch) := by
  unfold step at hs
  dsimp only at hs
  split at hs
  · rename_i c batch hpc
    exact ⟨c, batch, hpc, (Option.some.inj hs).symm⟩
  · cases hs

theorem step_swap (hs : s.step server (.swap l) = some t) :
    (s.loops l).pc = .handling [] ∧
      t = { s with loops := Function.update s.loops l { pc := .running (s.loops l).tasks } } := by
  unfold step at hs
  dsimp only at hs
  split at hs
  · rename_i hpc
    exact ⟨hpc, (Option.some.inj hs).symm⟩
  · cases hs

theorem step_runTask (hs : s.step server (.runTask l) = some t) :
    ∃ task curTask, (s.loops l).pc = .running (task :: curTask) ∧
      t = (s.setPc l (.running curTask)).runConnTask task := by
  unfold step at hs
  dsimp only at hs
  split at hs
  · rename_i task curTask hpc
    exact ⟨task, curTask, hpc, (Option.some.inj hs).symm⟩
  · cases hs

theorem step_endTasks (hs : s.step server (.endTasks l) = some t) :
    (s.loops l).pc = .running [] ∧ t = s.setPc l .poll := by
  unfold step at hs
  dsimp only at hs
  split at hs
  · rename_i hpc
    exact ⟨hpc, (Option.some.inj hs).symm⟩
  · cases hs

end Steps

end IdleConnectionsManager

end Dagger
