import Dagger.Transition
import Mathlib.Data.List.Basic
import Mathlib.Logic.Function.Basic

/-! # `EventLoop`

The loop of `src/EventLoop.h` and the threads that call `runInLoop` on it, as a transition
system with one action for each access to shared data.  A wake-up makes the eventfd readable
until the loop reads it; events other than the wake-up are handled without a trace here, and
tasks and handlers may call `runInLoop` themselves.

`submitted` and `executed` are the history: all tasks in the order in which their pushes took
`lock_`, and those started, in order; `taken` counts the tasks swapped out so far. -/

namespace Dagger

/-- Where the loop's thread stands in `start()`. -/
inductive LoopPc (τ : Type) where
  /-- In `epoller_.poll()`. -/
  | poll
  /-- Handling the events returned; `wakeUp` if the wake-up event is still to be handled. -/
  | handling (wakeUp : Bool)
  /-- After `isInTaskHanding_ = true`, before the swap. -/
  | flagged
  /-- Between two tasks of `curTask`, `rest` to come. -/
  | running (rest : List τ)
  /-- Inside a task. -/
  | inTask (rest : List τ)
deriving DecidableEq

/-- Where a thread stands in `runInLoop`. -/
inductive Caller where
  | idle
  /-- The task is pushed, as number `k`, and the flag is still to be read. -/
  | pushed (k : ℕ)
  /-- The flag was read as false, and the wake-up is still to be written. -/
  | waking
deriving DecidableEq

/-- `ι` is the type of the other threads; the loop's own thread is the caller `none`. -/
structure EventLoop (ι τ : Type) where
  pc : LoopPc τ := .poll
  isInTaskHanding : Bool := false
  tasks : List τ := []
  /-- The eventfd is readable. -/
  wakeUp : Bool := false
  callers : Option ι → Caller := fun _ => .idle
  submitted : List τ := []
  taken : ℕ := 0
  executed : List τ := []

namespace EventLoop

variable {ι τ : Type} [DecidableEq ι]

inductive Act (ι τ : Type) where
  /-- `poll` returns, with the wake-up event among others or not. -/
  | pollReturns (wakeUp : Bool)
  | readWakeUpFd
  | setHanding
  | swap
  | startTask
  | endTask
  | clearHanding
  | push (i : Option ι) (task : τ)
  | readHanding (i : Option ι)
  | writeWakeUpFd (i : Option ι)

/-- The loop's thread is not inside a `runInLoop` of its own. -/
def LoopFree (s : EventLoop ι τ) : Prop := s.callers none = .idle

/-- The loop's thread runs user code, which may call `runInLoop`. -/
def InUserCode (s : EventLoop ι τ) : Prop :=
  match s.pc with
  | .handling _ | .inTask _ => True
  | _ => False

def Enabled (s : EventLoop ι τ) : Act ι τ → Prop
  | .pollReturns wakeUp => s.pc = .poll ∧ (wakeUp = true → s.wakeUp = true)
  | .readWakeUpFd => s.pc = .handling true ∧ s.LoopFree
  | .setHanding => s.pc = .handling false ∧ s.LoopFree
  | .swap => s.pc = .flagged
  | .startTask => ∃ task rest, s.pc = .running (task :: rest)
  | .endTask => (∃ rest, s.pc = .inTask rest) ∧ s.LoopFree
  | .clearHanding => s.pc = .running []
  | .push i _ => s.callers i = .idle ∧ (i = none → s.InUserCode)
  | .readHanding i => ∃ k, s.callers i = .pushed k
  | .writeWakeUpFd i => s.callers i = .waking

/-- The step itself; a step that is not enabled changes nothing that is read later. -/
def next (s : EventLoop ι τ) : Act ι τ → EventLoop ι τ
  | .pollReturns wakeUp => { s with pc := .handling wakeUp }
  | .readWakeUpFd => { s with pc := .handling false, wakeUp := false }
  | .setHanding => { s with pc := .flagged, isInTaskHanding := true }
  | .swap => { s with
      pc := .running s.tasks
      tasks := []
      taken := s.submitted.length }
  | .startTask =>
      match s.pc with
      | .running (task :: rest) => { s with pc := .inTask rest, executed := s.executed ++ [task] }
      | _ => s
  | .endTask =>
      match s.pc with
      | .inTask rest => { s with pc := .running rest }
      | _ => s
  | .clearHanding => { s with pc := .poll, isInTaskHanding := false }
  | .push i task => { s with
      tasks := s.tasks ++ [task]
      submitted := s.submitted ++ [task]
      callers := Function.update s.callers i (.pushed s.submitted.length) }
  | .readHanding i => { s with
      callers := Function.update s.callers i (if s.isInTaskHanding then .idle else .waking) }
  | .writeWakeUpFd i => { s with wakeUp := true, callers := Function.update s.callers i .idle }

/-- The interleavings of the loop's thread with its callers, from an idle loop. -/
def system (ι τ : Type) [DecidableEq ι] : Transition.System (EventLoop ι τ) (Act ι τ) where
  Init s := s = {}
  Step s a t := s.Enabled a ∧ t = s.next a

end EventLoop

end Dagger
