import Dagger.EventLoop

/-! # Wake-ups

`runInLoop` writes the eventfd only if it reads `isInTaskHanding_` as false, and the flag stays
set while the swapped tasks run: a task pushed in that time is not in the batch and nobody is
woken for it.  `no_lost_wakeUp` proves that this is the only way to lose a wake-up. -/

namespace Dagger

open Transition

namespace LoopPc

variable {τ : Type}

/-- The value of `isInTaskHanding_` at each point of `start()`. -/
def handing : LoopPc τ → Bool
  | .poll => false
  | .handling _ => false
  | _ => true

/-- The tasks pushed by now are swapped out before the loop polls again. -/
def BeforeSwap : LoopPc τ → Prop
  | .handling _ => True
  | .flagged => True
  | _ => False

end LoopPc

namespace EventLoop

variable {ι τ : Type} [DecidableEq ι] {s t : EventLoop ι τ} {a : Act ι τ}

/-- The call of thread `i` will still write the eventfd, or may do so for a task that is not
swapped out. -/
def Coming (s : EventLoop ι τ) (i : Option ι) : Prop :=
  s.callers i = .waking ∨ ∃ k, s.callers i = .pushed k ∧ s.taken ≤ k

structure Awake (s : EventLoop ι τ) : Prop where
  flag : s.isInTaskHanding = s.pc.handing
  taken_le : s.taken ≤ s.submitted.length
  awake : ¬ s.pc.BeforeSwap → s.tasks ≠ [] → s.wakeUp = true ∨ ∃ i, s.Coming i

/-- A wake-up is skipped for tasks that are swapped out, or will be in this iteration, only. -/
def SkipsTaken (s : EventLoop ι τ) (a : Act ι τ) : Prop :=
  ∀ i k, a = .readHanding i → s.callers i = .pushed k → s.isInTaskHanding = true →
    ¬ s.pc.BeforeSwap → k < s.taken

theorem coming_update {i j : Option ι} {caller : Caller} (hij : j ≠ i) (h : s.Coming j) :
    Coming { s with callers := Function.update s.callers i caller } j := by
  unfold Coming at h ⊢
  simp only [Function.update_of_ne hij]
  exact h

theorem awake_step (h : s.Awake) (hs : ((system ι τ).guarded SkipsTaken).Step s a t) :
    t.Awake := by
  obtain ⟨⟨hen, rfl⟩, hguard⟩ := hs
  cases a with
  | pollReturns wakeUp =>
      have hf := h.flag
      rw [hen.1] at hf
      exact ⟨hf, h.taken_le, fun hb => absurd trivial hb⟩
  | readWakeUpFd =>
      have hf := h.flag
      rw [hen.1] at hf
      exact ⟨hf, h.taken_le, fun hb => absurd trivial hb⟩
  | setHanding => exact ⟨rfl, h.taken_le, fun hb => absurd trivial hb⟩
  | swap =>
      have hf := h.flag
      have hpc : s.pc = .flagged := hen
      rw [hpc] at hf
      exact ⟨hf, Nat.le_refl _, fun _ hne => absurd rfl hne⟩
  | startTask =>
      obtain ⟨task, rest, hpc⟩ := hen
      have hf := h.flag
      have hw := h.awake
      rw [hpc] at hf hw
      simp only [next, hpc]
      exact ⟨hf, h.taken_le, hw⟩
  | endTask =>
      obtain ⟨⟨rest, hpc⟩, -⟩ := hen
      have hf := h.flag
      have hw := h.awake
      rw [hpc] at hf hw
      simp only [next, hpc]
      exact ⟨hf, h.taken_le, hw⟩
  | clearHanding =>
      have hpc : s.pc = .running [] := hen
      have hw := h.awake
      rw [hpc] at hw
      exact ⟨rfl, h.taken_le, hw⟩
  | push i task =>
      have hle : s.taken ≤ (s.submitted ++ [task]).length := by
        rw [List.length_append]
        exact Nat.le_add_right_of_le h.taken_le
      refine ⟨h.flag, hle, fun _ _ => Or.inr ⟨i, Or.inr ⟨s.submitted.length, ?_, h.taken_le⟩⟩⟩
      exact Function.update_self i _ s.callers
  | readHanding i =>
      obtain ⟨k, hk⟩ := hen
      refine ⟨h.flag, h.taken_le, fun hb hne => ?_⟩
      cases hf : s.isInTaskHanding with
      | false =>
          refine Or.inr ⟨i, Or.inl ?_⟩
          show Function.update s.callers i (if s.isInTaskHanding then _ else _) i = _
          rw [Function.update_self, hf]
          rfl
      | true =>
          -- the call that gives up was about a task that is swapped out, so another is coming
          rcases h.awake hb hne with hw | ⟨j, hj⟩
          · exact Or.inl hw
          · refine Or.inr ⟨j, coming_update ?_ hj⟩
            rintro rfl
            rcases hj with hj | ⟨k', hj, hle⟩
            · rw [hk] at hj
              cases hj
            · rw [hk] at hj
              obtain rfl := Caller.pushed.inj hj
              exact absurd (hguard j k rfl hk hf hb) (Nat.not_lt.mpr hle)
  | writeWakeUpFd i => exact ⟨h.flag, h.taken_le, fun _ _ => Or.inl rfl⟩

theorem awake_of_reachable (h : Reachable ((system ι τ).guarded SkipsTaken) s) : s.Awake := by
  refine h.invariant ?_ (fun _ _ _ => awake_step)
  rintro _ rfl
  exact ⟨rfl, Nat.le_refl 0, fun _ hne => absurd rfl hne⟩

/-- **No lost wake-up**, in every run in which no call reads the flag as set while its task is
left in `tasks_` behind the swap: when the loop is in `poll` with nothing to wake it and no call
of `runInLoop` under way, no task waits. -/
theorem no_lost_wakeUp (h : Reachable ((system ι τ).guarded SkipsTaken) s) (hpc : s.pc = .poll)
    (hw : s.wakeUp = false) (hidle : ∀ i, s.callers i = .idle) : s.tasks = [] := by
  by_contra hne
  have hb : ¬ s.pc.BeforeSwap := by
    rw [hpc]
    exact id
  rcases (awake_of_reachable h).awake hb hne with hw' | ⟨i, hi | ⟨k, hi, -⟩⟩
  · rw [hw] at hw'
    cases hw'
  · rw [hidle i] at hi
    cases hi
  · rw [hidle i] at hi
    cases hi

omit [DecidableEq ι] in
/-- A step that reads no flag meets the condition. -/
theorem skipsTaken_of_ne (h : ∀ i, a ≠ .readHanding i) : s.SkipsTaken a :=
  fun i _ ha => absurd ha (h i)

/-- One task from another thread, with its wake-up, and one iteration of the loop. -/
def oneTask : List (Act Unit ℕ) :=
  [.push (some ()) 1, .readHanding (some ()), .writeWakeUpFd (some ()), .pollReturns true,
    .readWakeUpFd, .setHanding, .swap, .startTask, .endTask, .clearHanding]

/-- The loop after `oneTask`. -/
theorem no_lost_wakeUp_oneTask : (oneTask.foldl next ({} : EventLoop Unit ℕ)).tasks = [] := by
  have hrun : Path ((system Unit ℕ).guarded SkipsTaken) {} oneTask (oneTask.foldl next {}) := by
    refine .cons ⟨⟨⟨rfl, nofun⟩, rfl⟩, skipsTaken_of_ne nofun⟩ ?_
    refine .cons ⟨⟨⟨0, rfl⟩, rfl⟩, fun _ _ _ _ hf => by cases hf⟩ ?_
    refine .cons ⟨⟨rfl, rfl⟩, skipsTaken_of_ne nofun⟩ ?_
    refine .cons ⟨⟨⟨rfl, fun _ => rfl⟩, rfl⟩, skipsTaken_of_ne nofun⟩ ?_
    refine .cons ⟨⟨⟨rfl, rfl⟩, rfl⟩, skipsTaken_of_ne nofun⟩ ?_
    refine .cons ⟨⟨⟨rfl, rfl⟩, rfl⟩, skipsTaken_of_ne nofun⟩ ?_
    refine .cons ⟨⟨rfl, rfl⟩, skipsTaken_of_ne nofun⟩ ?_
    refine .cons ⟨⟨⟨1, [], rfl⟩, rfl⟩, skipsTaken_of_ne nofun⟩ ?_
    refine .cons ⟨⟨⟨⟨[], rfl⟩, rfl⟩, rfl⟩, skipsTaken_of_ne nofun⟩ ?_
    exact .cons ⟨⟨rfl, rfl⟩, skipsTaken_of_ne nofun⟩ (.nil _)
  have hidle : ∀ i, (oneTask.foldl next ({} : EventLoop Unit ℕ)).callers i = .idle := by
    rintro (_ | ⟨⟩)
    · rfl
    · rfl
  exact no_lost_wakeUp (hrun.reachable (.init rfl)) rfl rfl hidle

/-- While the loop runs a task, another thread pushes a second one and reads the flag. -/
def lateTask : List (Act Unit ℕ) :=
  [.push (some ()) 1, .readHanding (some ()), .writeWakeUpFd (some ()), .pollReturns true,
    .readWakeUpFd, .setHanding, .swap, .startTask, .push (some ()) 2, .readHanding (some ()),
    .endTask, .clearHanding]

/-- The second task of `lateTask` waits in `tasks_` while the loop blocks, and no wake-up is
pending or coming. -/
theorem wakeUp_lost : ∃ s, Path (system Unit ℕ) {} lateTask s ∧ s.pc = .poll ∧
    s.wakeUp = false ∧ (∀ i, s.callers i = .idle) ∧ s.tasks = [2] := by
  refine ⟨lateTask.foldl next {}, ?_, rfl, rfl, ?_, rfl⟩
  · refine .cons ⟨⟨rfl, nofun⟩, rfl⟩ (.cons ⟨⟨0, rfl⟩, rfl⟩ (.cons ⟨rfl, rfl⟩ ?_))
    refine .cons ⟨⟨rfl, fun _ => rfl⟩, rfl⟩ (.cons ⟨⟨rfl, rfl⟩, rfl⟩ (.cons ⟨⟨rfl, rfl⟩, rfl⟩ ?_))
    refine .cons ⟨rfl, rfl⟩ (.cons ⟨⟨1, [], rfl⟩, rfl⟩ (.cons ⟨⟨rfl, nofun⟩, rfl⟩ ?_))
    exact .cons ⟨⟨1, rfl⟩, rfl⟩ (.cons ⟨⟨⟨[], rfl⟩, rfl⟩, rfl⟩ (.cons ⟨rfl, rfl⟩ (.nil _)))
  · rintro (_ | ⟨⟩)
    · rfl
    · rfl

end EventLoop

end Dagger
