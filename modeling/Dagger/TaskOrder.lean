import Dagger.EventLoop

/-! # The order of tasks

`EventLoop` takes a push and a swap for one action each.  `LockedLoop` cuts them at `lock_`: a
thread takes the lock, changes `tasks_` and releases the lock in three steps, and the other
threads go on in between.  Its runs are runs of the loop (`loop_of_reachable`), so that what the
loop conserves holds at every point of them, and no push gets between the swap and the assertion
behind it (`tasks_in_order`). -/

namespace Dagger

/-- The tasks of `curTask` that are still to be started. -/
def LoopPc.rest {τ : Type} : LoopPc τ → List τ
  | running rest | inTask rest => rest
  | _ => []

namespace EventLoop

open Transition

variable {ι τ : Type} [DecidableEq ι] {s t : EventLoop ι τ} {a : Act ι τ}

/-- Every task was executed, or is in the batch, or in `tasks_`. -/
def Conserved (s : EventLoop ι τ) : Prop := s.executed ++ s.pc.rest ++ s.tasks = s.submitted

theorem conserved_next (h : s.Conserved) (hl : s.Enabled a) : (s.next a).Conserved := by
  unfold Conserved at h
  cases a with
  | pollReturns wakeUp =>
      rw [hl.1] at h
      exact h
  | readWakeUpFd =>
      rw [hl.1] at h
      exact h
  | setHanding =>
      rw [hl.1] at h
      exact h
  | swap =>
      rw [show s.pc = .flagged from hl] at h
      refine Eq.trans ?_ h
      simp [next, LoopPc.rest]
  | startTask =>
      obtain ⟨task, rest, hpc⟩ := hl
      unfold Conserved next
      simp only [hpc] at h ⊢
      refine Eq.trans ?_ h
      simp [LoopPc.rest]
  | endTask =>
      obtain ⟨⟨rest, hpc⟩, -⟩ := hl
      unfold Conserved next
      simp only [hpc] at h ⊢
      exact h
  | clearHanding =>
      rw [show s.pc = .running [] from hl] at h
      exact h
  | push i task =>
      have h' := congrArg (· ++ [task]) h
      rw [List.append_assoc] at h'
      exact h'
  | readHanding i => exact h
  | writeWakeUpFd i => exact h

theorem conserved_of_reachable (h : Reachable (system ι τ) s) : s.Conserved := by
  refine h.invariant ?_ fun s a t hc hs => ?_
  · rintro _ rfl
    rfl
  · rw [hs.2]
    exact conserved_next hc hs.1

end EventLoop

/-! ### The lock -/

/-- Who holds `lock_`, and what was done under it. -/
inductive Holder (ι τ : Type) where
  | free
  /-- A thread that is about to push its task. -/
  | pushing (i : Option ι) (task : τ)
  | pushed (i : Option ι)
  /-- The loop, before `curTask.swap(tasks_)`. -/
  | swapping
  /-- The loop, at `assert(tasks_.empty())`. -/
  | swapped

structure LockedLoop (ι τ : Type) where
  loop : EventLoop ι τ := {}
  holder : Holder ι τ := .free

namespace LockedLoop

open Transition

variable {ι τ : Type} [DecidableEq ι]

inductive Act (ι τ : Type) where
  /-- An action that does not touch `tasks_`. -/
  | plain (a : EventLoop.Act ι τ)
  | lockPush (i : Option ι) (task : τ)
  | push
  | unlockPush
  | lockSwap
  | swap
  /-- The assertion, and the end of the critical section. -/
  | unlockSwap

/-- The thread that takes an action which does not touch `tasks_`. -/
def thread : EventLoop.Act ι τ → Option ι
  | .readHanding i | .writeWakeUpFd i => i
  | _ => none

/-- The action does not touch `tasks_`. -/
def Plain : EventLoop.Act ι τ → Prop
  | .push _ _ | .swap => False
  | _ => True

/-- The thread is not inside a critical section. -/
def Outside (s : LockedLoop ι τ) (i : Option ι) : Prop :=
  match s.holder with
  | .free => True
  | .pushing j _ | .pushed j => i ≠ j
  | .swapping | .swapped => i ≠ none

def Enabled (s : LockedLoop ι τ) : Act ι τ → Prop
  | .plain a => Plain a ∧ s.Outside (thread a) ∧ s.loop.Enabled a
  | .lockPush i task => s.holder = .free ∧ s.loop.Enabled (.push i task)
  | .push => ∃ i task, s.holder = .pushing i task
  | .unlockPush => ∃ i, s.holder = .pushed i
  | .lockSwap => s.holder = .free ∧ s.loop.Enabled .swap
  | .swap => s.holder = .swapping
  | .unlockSwap => s.holder = .swapped

def next (s : LockedLoop ι τ) : Act ι τ → LockedLoop ι τ
  | .plain a => { s with loop := s.loop.next a }
  | .lockPush i task => { s with holder := .pushing i task }
  | .push =>
      match s.holder with
      | .pushing i task => { loop := s.loop.next (.push i task), holder := .pushed i }
      | _ => s
  | .unlockPush => { s with holder := .free }
  | .lockSwap => { s with holder := .swapping }
  | .swap => { loop := s.loop.next .swap, holder := .swapped }
  | .unlockSwap => { s with holder := .free }

/-- The interleavings of the loop's thread with its callers, step by step under the lock. -/
def system (ι τ : Type) [DecidableEq ι] : System (LockedLoop ι τ) (Act ι τ) where
  Init s := s = {}
  Step s a t := s.Enabled a ∧ t = s.next a

variable {s t : LockedLoop ι τ} {a : Act ι τ}

/-- What the holder of the lock is about to do is still enabled, and nothing was pushed behind a
swap. -/
def Guarded (s : LockedLoop ι τ) : Prop :=
  match s.holder with
  | .pushing i task => s.loop.Enabled (.push i task)
  | .swapping => s.loop.Enabled .swap
  | .swapped => s.loop.tasks = []
  | _ => True

/-- The other threads do not disable a push. -/
theorem enabled_push_next {l : EventLoop ι τ} {i : Option ι} {task : τ} {a : EventLoop.Act ι τ}
    (h : l.Enabled (.push i task)) (ha : Plain a) (hne : thread a ≠ i) :
    (l.next a).Enabled (.push i task) := by
  obtain ⟨hidle, huser⟩ := h
  cases a with
  | push j task' => exact ha.elim
  | swap => exact ha.elim
  | readHanding j =>
      have hij : i ≠ j := fun he => hne he.symm
      refine ⟨?_, huser⟩
      show Function.update l.callers j _ i = .idle
      rw [Function.update_of_ne hij]
      exact hidle
  | writeWakeUpFd j =>
      have hij : i ≠ j := fun he => hne he.symm
      refine ⟨?_, huser⟩
      show Function.update l.callers j _ i = .idle
      rw [Function.update_of_ne hij]
      exact hidle
  | startTask =>
      refine ⟨?_, fun hi => absurd hi.symm hne⟩
      unfold EventLoop.next
      dsimp only
      split
      · exact hidle
      · exact hidle
  | endTask =>
      refine ⟨?_, fun hi => absurd hi.symm hne⟩
      unfold EventLoop.next
      dsimp only
      split
      · exact hidle
      · exact hidle
  | _ => exact ⟨hidle, fun hi => absurd hi.symm hne⟩

/-- The callers do not disable a swap. -/
theorem enabled_swap_next {l : EventLoop ι τ} {a : EventLoop.Act ι τ} (h : l.Enabled .swap)
    (ha : Plain a) (hne : thread a ≠ none) : (l.next a).Enabled .swap := by
  cases a with
  | readHanding j => exact h
  | writeWakeUpFd j => exact h
  | push j task => exact ha.elim
  | _ => exact absurd rfl hne

theorem tasks_next {l : EventLoop ι τ} {a : EventLoop.Act ι τ} (ha : Plain a) :
    (l.next a).tasks = l.tasks := by
  cases a with
  | push j task => exact ha.elim
  | swap => exact ha.elim
  | startTask =>
      unfold EventLoop.next
      dsimp only
      split
      · rfl
      · rfl
  | endTask =>
      unfold EventLoop.next
      dsimp only
      split
      · rfl
      · rfl
  | _ => rfl

theorem guarded_step (h : s.Guarded) (hs : (system ι τ).Step s a t) : t.Guarded := by
  obtain ⟨hl, rfl⟩ := hs
  cases a with
  | plain a =>
      obtain ⟨ha, hout, -⟩ := hl
      unfold Guarded at h ⊢
      unfold Outside at hout
      show match s.holder with
        | .pushing i task => (s.loop.next a).Enabled (.push i task)
        | .swapping => (s.loop.next a).Enabled .swap
        | .swapped => (s.loop.next a).tasks = []
        | _ => True
      cases hh : s.holder with
      | free => trivial
      | pushed i => trivial
      | pushing i task =>
          rw [hh] at h hout
          exact enabled_push_next h ha hout
      | swapping =>
          rw [hh] at h hout
          exact enabled_swap_next h ha hout
      | swapped =>
          rw [hh] at h
          exact (tasks_next ha).trans h
  | lockPush i task => exact hl.2
  | push =>
      obtain ⟨i, task, hh⟩ := hl
      unfold next Guarded
      simp only [hh]
  | unlockPush => trivial
  | lockSwap => exact hl.2
  | swap => rfl
  | unlockSwap => trivial

theorem guarded_of_reachable (h : Reachable (system ι τ) s) : s.Guarded := by
  refine h.invariant ?_ (fun _ _ _ => guarded_step)
  rintro _ rfl
  trivial

/-- The runs under the lock are runs of the loop. -/
theorem loop_of_reachable (h : Reachable (system ι τ) s) :
    Reachable (EventLoop.system ι τ) s.loop := by
  induction h with
  | init hi =>
      rw [hi]
      exact .init rfl
  | @step s t a hr hs ih =>
      obtain ⟨hl, rfl⟩ := hs
      have hg := guarded_of_reachable hr
      unfold Guarded at hg
      cases a with
      | plain a => exact ih.step ⟨hl.2.2, rfl⟩
      | push =>
          obtain ⟨i, task, hh⟩ := hl
          rw [hh] at hg
          have hn : (s.next .push).loop = s.loop.next (.push i task) := by
            unfold next
            simp only [hh]
          rw [hn]
          exact ih.step ⟨hg, rfl⟩
      | swap =>
          rw [show s.holder = .swapping from hl] at hg
          exact ih.step ⟨hg, rfl⟩
      | _ => exact ih

/-- **Tasks run in order**: at every point, what was executed, the rest of the batch and `tasks_`
are the tasks submitted so far, in the order of their pushes; and `tasks_` is empty at the
assertion behind the swap. -/
theorem tasks_in_order (h : Reachable (system ι τ) s) :
    s.loop.executed ++ s.loop.pc.rest ++ s.loop.tasks = s.loop.submitted ∧
      (s.holder = .swapped → s.loop.tasks = []) := by
  refine ⟨EventLoop.conserved_of_reachable (loop_of_reachable h), fun hh => ?_⟩
  have hg := guarded_of_reachable h
  unfold Guarded at hg
  rw [hh] at hg
  exact hg

/-- Two threads push a task each, and the loop is at the assertion behind its swap. -/
def twoTasksSwapped : List (Act Bool ℕ) :=
  [.lockPush (some false) 1, .push, .unlockPush, .lockPush (some true) 2, .push, .unlockPush,
    .plain (.pollReturns false), .plain .setHanding, .lockSwap, .swap]

/-- The loop runs the two tasks, the first of which pushes a third one. -/
def twoTasksRun : List (Act Bool ℕ) :=
  [.unlockSwap, .plain .startTask, .lockPush none 3, .push, .unlockPush,
    .plain (.readHanding none), .plain .endTask, .plain .startTask]

theorem tasks_in_order_twoTasks : ∃ s t, Path (system Bool ℕ) {} twoTasksSwapped s ∧
    Path (system Bool ℕ) s twoTasksRun t ∧
    (s.loop.pc.rest = [1, 2] ∧ s.loop.tasks = []) ∧
    (t.loop.executed = [1, 2] ∧ t.loop.tasks = [3]) ∧
    t.loop.executed ++ t.loop.pc.rest ++ t.loop.tasks = t.loop.submitted := by
  have hp : Path (system Bool ℕ) {} twoTasksSwapped (twoTasksSwapped.foldl next {}) := by
    refine .cons ⟨⟨rfl, rfl, nofun⟩, rfl⟩ (.cons ⟨⟨_, _, rfl⟩, rfl⟩ (.cons ⟨⟨_, rfl⟩, rfl⟩ ?_))
    refine .cons ⟨⟨rfl, rfl, nofun⟩, rfl⟩ (.cons ⟨⟨_, _, rfl⟩, rfl⟩ (.cons ⟨⟨_, rfl⟩, rfl⟩ ?_))
    refine .cons ⟨⟨trivial, trivial, rfl, nofun⟩, rfl⟩ ?_
    refine .cons ⟨⟨trivial, trivial, rfl, rfl⟩, rfl⟩ ?_
    exact .cons ⟨⟨rfl, rfl⟩, rfl⟩ (.cons ⟨rfl, rfl⟩ (.nil _))
  have hq : Path (system Bool ℕ) (twoTasksSwapped.foldl next {}) twoTasksRun
      (twoTasksRun.foldl next (twoTasksSwapped.foldl next {})) := by
    refine .cons ⟨rfl, rfl⟩ (.cons ⟨⟨trivial, trivial, _, _, rfl⟩, rfl⟩ ?_)
    refine .cons ⟨⟨rfl, rfl, fun _ => trivial⟩, rfl⟩ ?_
    refine .cons ⟨⟨_, _, rfl⟩, rfl⟩ (.cons ⟨⟨_, rfl⟩, rfl⟩ ?_)
    refine .cons ⟨⟨trivial, trivial, _, rfl⟩, rfl⟩ ?_
    refine .cons ⟨⟨trivial, trivial, ⟨_, rfl⟩, rfl⟩, rfl⟩ ?_
    exact .cons ⟨⟨trivial, trivial, _, _, rfl⟩, rfl⟩ (.nil _)
  have hr := hp.reachable (.init rfl)
  exact ⟨_, _, hp, hq, ⟨rfl, (tasks_in_order hr).2 rfl⟩, ⟨rfl, rfl⟩,
    (tasks_in_order (hq.reachable hr)).1⟩

end LockedLoop

end Dagger
