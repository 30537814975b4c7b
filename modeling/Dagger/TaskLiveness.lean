import Dagger.FairRuns
import Dagger.TaskOrder
import Dagger.WakeUp

/-! # Every task runs

A task given to `runInLoop` is executed in the end, if the loop's thread goes on whenever it can and
no caller stops between its push and its wake-up: `tasks_eventually_run`.  The runs are those of
`no_lost_wakeUp`; in the others a task may wait for ever, and nobody is to blame for it
(`task_starves`).

The proof counts the steps that the loop has to take until the task (`stepsTo`): the steps of the
callers do not change the count, and each step of the loop lowers it. -/

namespace Dagger

open Transition

namespace LoopPc

variable {τ : Type}

/-- The steps of the loop until it swaps out `tasks_`. -/
def toSwap : LoopPc τ → ℕ
  | .flagged => 1
  | .handling false => 2
  | .handling true => 3
  | .poll => 4
  | .running rest => 2 * rest.length + 5
  | .inTask rest => 2 * rest.length + 6

/-- The steps of the loop until it is between two tasks of `curTask`. -/
def toNext : LoopPc τ → ℕ
  | .inTask _ => 1
  | _ => 0

end LoopPc

namespace EventLoop

variable {ι τ : Type}

/-- The action is the loop's own, and not one of a `runInLoop` that it calls. -/
def Act.OfLoop : Act ι τ → Prop
  | .push _ _ | .readHanding _ | .writeWakeUpFd _ => False
  | _ => True

/-- The loop's thread can leave `poll`, or is out of it: handlers and tasks return. -/
def CanMove (s : EventLoop ι τ) : Prop := s.pc ≠ .poll ∨ s.wakeUp = true

/-- No thread stops for ever on its way. -/
structure Fair {S : System (EventLoop ι τ) (Act ι τ)} (r : Run S.stuttering) : Prop where
  loop : r.WeaklyFair CanMove fun _ a => ∃ b : Act ι τ, a = some b ∧ b.OfLoop
  callers : ∀ i, r.WeaklyFair (fun s => s.callers i ≠ .idle)
    fun _ a => a = some (.readHanding i) ∨ a = some (.writeWakeUpFd i)

variable {s t : EventLoop ι τ} {a : Act ι τ} {k : ℕ}

/-! ### Steps to a task -/

/-- The steps of the loop until task number `k`, if it is pushed by now. -/
def stepsTo (k : ℕ) (s : EventLoop ι τ) : ℕ :=
  2 * (k - s.executed.length) +
    if k < s.executed.length + s.pc.rest.length then s.pc.toNext else s.pc.toSwap

/-- The task is in `curTask`. -/
theorem stepsTo_of_batch (h : k < s.executed.length + s.pc.rest.length) :
    stepsTo k s = 2 * (k - s.executed.length) + s.pc.toNext := by
  unfold stepsTo
  rw [if_pos h]

/-- The task is in `tasks_`. -/
theorem stepsTo_of_tasks (h : s.executed.length + s.pc.rest.length ≤ k) :
    stepsTo k s = 2 * (k - s.executed.length) + s.pc.toSwap := by
  unfold stepsTo
  rw [if_neg (Nat.not_lt.mpr h)]

/-- A step before the swap. -/
theorem stepsTo_lt (hne : s.executed.length ≤ k) (he : t.executed = s.executed)
    (hs : s.pc.rest = []) (ht : t.pc.rest = []) (hlt : t.pc.toSwap < s.pc.toSwap) :
    stepsTo k t < stepsTo k s := by
  have hs' : s.executed.length + s.pc.rest.length ≤ k := by
    rw [hs]
    exact hne
  have ht' : t.executed.length + t.pc.rest.length ≤ k := by
    rw [ht, he]
    exact hne
  rw [stepsTo_of_tasks hs', stepsTo_of_tasks ht', he]
  omega

/-- What the loop and its count do not notice. -/
structure Unnoticed (s t : EventLoop ι τ) : Prop where
  pc : t.pc = s.pc
  executed : t.executed = s.executed
  wakeUp : s.wakeUp = true → t.wakeUp = true
  submitted : s.submitted <+: t.submitted
  tasks : s.tasks ≠ [] → t.tasks ≠ []

theorem Unnoticed.trans {u : EventLoop ι τ} (h : Unnoticed s t) (h' : Unnoticed t u) :
    Unnoticed s u where
  pc := h'.pc.trans h.pc
  executed := h'.executed.trans h.executed
  wakeUp hw := h'.wakeUp (h.wakeUp hw)
  submitted := h.submitted.trans h'.submitted
  tasks hne := h'.tasks (h.tasks hne)

variable [DecidableEq ι]

/-- The loop comes nearer to the task. -/
theorem stepsTo_next (hc : s.Conserved) (hk : k < s.submitted.length) (hne : s.executed.length ≤ k)
    (hen : s.Enabled a) (ha : a.OfLoop) :
    k < (s.next a).executed.length ∨ stepsTo k (s.next a) < stepsTo k s := by
  cases a with
  | push i task => exact ha.elim
  | readHanding i => exact ha.elim
  | writeWakeUpFd i => exact ha.elim
  | pollReturns wakeUp =>
      refine Or.inr (stepsTo_lt hne rfl ?_ rfl ?_)
      · rw [hen.1]
        rfl
      · rw [hen.1]
        cases wakeUp with
        | false => exact (by decide : 2 < 4)
        | true => exact (by decide : 3 < 4)
  | readWakeUpFd =>
      refine Or.inr (stepsTo_lt hne rfl ?_ rfl ?_)
      · rw [hen.1]
        rfl
      · rw [hen.1]
        exact (by decide : 2 < 3)
  | setHanding =>
      refine Or.inr (stepsTo_lt hne rfl ?_ rfl ?_)
      · rw [hen.1]
        rfl
      · rw [hen.1]
        exact (by decide : 1 < 2)
  | clearHanding =>
      have hpc : s.pc = .running [] := hen
      refine Or.inr (stepsTo_lt hne rfl ?_ rfl ?_)
      · rw [hpc]
        rfl
      · rw [hpc]
        exact (by decide : 4 < 5)
  | swap =>
      right
      have hpc : s.pc = .flagged := hen
      have hlen := congrArg List.length hc
      rw [hpc] at hlen
      simp only [LoopPc.rest, List.append_nil, List.length_append] at hlen
      have hbatch : k < (s.next .swap).executed.length + (s.next .swap).pc.rest.length := by
        show k < s.executed.length + s.tasks.length
        omega
      have hwaits : s.executed.length + s.pc.rest.length ≤ k := by
        rw [hpc]
        exact hne
      rw [stepsTo_of_batch hbatch, stepsTo_of_tasks hwaits, hpc]
      show 2 * (k - s.executed.length) + 0 < 2 * (k - s.executed.length) + 1
      omega
  | startTask =>
      obtain ⟨task, rest, hpc⟩ := hen
      unfold stepsTo
      simp only [next, hpc, List.length_append, LoopPc.rest, List.length_cons,
        LoopPc.toNext, LoopPc.toSwap]
      split_ifs
      · omega
      · omega
      · omega
      · omega
  | endTask =>
      obtain ⟨⟨rest, hpc⟩, -⟩ := hen
      right
      unfold stepsTo
      simp only [next, hpc, LoopPc.rest, LoopPc.toNext, LoopPc.toSwap]
      split_ifs
      · omega
      · omega

theorem unnoticed_next (ha : ¬ a.OfLoop) : Unnoticed s (s.next a) := by
  cases a with
  | push i task =>
      exact ⟨rfl, rfl, id, List.prefix_append .., fun h => List.append_ne_nil_of_left_ne_nil h _⟩
  | readHanding i => exact ⟨rfl, rfl, id, List.prefix_refl _, id⟩
  | writeWakeUpFd i => exact ⟨rfl, rfl, fun _ => rfl, List.prefix_refl _, id⟩
  | _ => exact absurd trivial ha

/-- A call goes on by its own steps only. -/
theorem callers_next {i : Option ι} (hi : s.callers i ≠ .idle) (hen : s.Enabled a)
    (hread : a ≠ .readHanding i) (hwrite : a ≠ .writeWakeUpFd i) :
    (s.next a).callers i = s.callers i := by
  have hupdate : ∀ (j : Option ι) (caller : Caller), i ≠ j →
      Function.update s.callers j caller i = s.callers i :=
    fun j caller hij => Function.update_of_ne hij ..
  cases a with
  | push j task =>
      refine hupdate j _ ?_
      rintro rfl
      exact hi hen.1
  | readHanding j =>
      refine hupdate j _ ?_
      rintro rfl
      exact hread rfl
  | writeWakeUpFd j =>
      refine hupdate j _ ?_
      rintro rfl
      exact hwrite rfl
  | startTask =>
      unfold next
      dsimp only
      split
      · rfl
      · rfl
  | endTask =>
      unfold next
      dsimp only
      split
      · rfl
      · rfl
  | _ => rfl

/-! ### Runs that end -/

omit [DecidableEq ι] in
theorem fair_of_end {S : System (EventLoop ι τ) (Act ι τ)} {r : Run S.stuttering} {n : ℕ}
    (hend : ∀ m, n ≤ m → r.st m = s) (hmove : ¬ CanMove s) (hidle : ∀ i, s.callers i = .idle) :
    Fair r :=
  ⟨Run.weaklyFair_of_end hend hmove, fun i => Run.weaklyFair_of_end hend fun h => h (hidle i)⟩

/-- A task of the loop's own thread, pushed while it handles an event, and two iterations. -/
def ownTask : List (Act Unit ℕ) :=
  [.pollReturns false, .push none 7, .readHanding none, .writeWakeUpFd none, .setHanding, .swap,
    .startTask, .endTask, .clearHanding, .pollReturns true, .readWakeUpFd, .setHanding, .swap,
    .clearHanding]

theorem path_ownTask :
    Path ((system Unit ℕ).guarded SkipsTaken) {} ownTask (ownTask.foldl next {}) := by
  refine .cons ⟨⟨⟨rfl, nofun⟩, rfl⟩, skipsTaken_of_ne nofun⟩ ?_
  refine .cons ⟨⟨⟨rfl, fun _ => trivial⟩, rfl⟩, skipsTaken_of_ne nofun⟩ ?_
  refine .cons ⟨⟨⟨0, rfl⟩, rfl⟩, fun _ _ _ _ hf => by cases hf⟩ ?_
  refine .cons ⟨⟨rfl, rfl⟩, skipsTaken_of_ne nofun⟩ ?_
  refine .cons ⟨⟨⟨rfl, rfl⟩, rfl⟩, skipsTaken_of_ne nofun⟩ ?_
  refine .cons ⟨⟨rfl, rfl⟩, skipsTaken_of_ne nofun⟩ ?_
  refine .cons ⟨⟨⟨7, [], rfl⟩, rfl⟩, skipsTaken_of_ne nofun⟩ ?_
  refine .cons ⟨⟨⟨⟨[], rfl⟩, rfl⟩, rfl⟩, skipsTaken_of_ne nofun⟩ ?_
  refine .cons ⟨⟨rfl, rfl⟩, skipsTaken_of_ne nofun⟩ ?_
  refine .cons ⟨⟨⟨rfl, fun _ => rfl⟩, rfl⟩, skipsTaken_of_ne nofun⟩ ?_
  refine .cons ⟨⟨⟨rfl, rfl⟩, rfl⟩, skipsTaken_of_ne nofun⟩ ?_
  refine .cons ⟨⟨⟨rfl, rfl⟩, rfl⟩, skipsTaken_of_ne nofun⟩ ?_
  refine .cons ⟨⟨rfl, rfl⟩, skipsTaken_of_ne nofun⟩ ?_
  exact .cons ⟨⟨rfl, rfl⟩, skipsTaken_of_ne nofun⟩ (.nil _)

/-- The run along `ownTask`. -/
def ownTaskRun : Run ((system Unit ℕ).guarded SkipsTaken).stuttering :=
  path_ownTask.run (fun _ _ _ h => h.1.2) rfl

/-! ### Runs -/

section Runs

variable {r : Run ((system ι τ).guarded SkipsTaken).stuttering}

/-- The loop takes step `n` of the run. -/
def LoopSteps (r : Run ((system ι τ).guarded SkipsTaken).stuttering) (n : ℕ) : Prop :=
  ∃ a : Act ι τ, r.act n = some a ∧ a.OfLoop

theorem step_cases (r : Run ((system ι τ).guarded SkipsTaken).stuttering) (n : ℕ) :
    (r.act n = none ∧ r.st (n + 1) = r.st n) ∨
      ∃ a : Act ι τ, r.act n = some a ∧ (r.st n).Enabled a ∧ r.st (n + 1) = (r.st n).next a := by
  rcases r.step_cases n with hrest | ⟨a, ha, hstep, -⟩
  · exact Or.inl hrest
  · exact Or.inr ⟨a, ha, hstep⟩

theorem unnoticed_step {n : ℕ} (h : ¬ LoopSteps r n) : Unnoticed (r.st n) (r.st (n + 1)) := by
  rcases step_cases r n with ⟨-, hst⟩ | ⟨a, ha, -, hst⟩
  · rw [hst]
    exact ⟨rfl, rfl, id, List.prefix_refl _, id⟩
  · rw [hst]
    exact unnoticed_next fun hl => h ⟨a, ha, hl⟩

/-- While the loop rests. -/
theorem unnoticed_of_rest {n m : ℕ} (hrest : ∀ m, n ≤ m → ¬ LoopSteps r m) (hm : n ≤ m) :
    Unnoticed (r.st n) (r.st m) := by
  induction hm with
  | refl => exact ⟨rfl, rfl, id, List.prefix_refl _, id⟩
  | @step m hm ih => exact ih.trans (unnoticed_step (hrest m hm))

/-- A loop that can move does. -/
theorem not_canMove (hfair : Fair r) {n m : ℕ} (hrest : ∀ m, n ≤ m → ¬ LoopSteps r m) (hm : n ≤ m) :
    ¬ CanMove (r.st m) := by
  intro hcan
  have hstays : ∀ j, m ≤ j → CanMove (r.st j) := by
    intro j hj
    have hun := unnoticed_of_rest (fun i hi => hrest i (hm.trans hi)) hj
    rcases hcan with hpc | hw
    · exact Or.inl (by rw [hun.pc]; exact hpc)
    · exact Or.inr (hun.wakeUp hw)
  obtain ⟨j, hj, hsteps⟩ := hfair.loop m hstays
  exact hrest j (hm.trans hj) hsteps

/-- A call that has not returned takes its next step. -/
theorem caller_steps (hfair : Fair r) {i : Option ι} {caller : Caller} {n : ℕ}
    (h : (r.st n).callers i = caller) (hne : caller ≠ .idle) :
    ∃ m, n ≤ m ∧ (r.st m).callers i = caller ∧
      (r.act m = some (.readHanding i) ∨ r.act m = some (.writeWakeUpFd i)) := by
  have hle : ∀ s : EventLoop ι τ, s.callers i = caller → s.callers i ≠ .idle := by
    rintro s rfl
    exact hne
  have hweak := (hfair.callers i).mono hle
  refine hweak.taken (fun m hm hnot => ?_) h
  rcases step_cases r m with ⟨-, hst⟩ | ⟨a, ha, hen, hst⟩
  · rw [hst]
    exact hm
  · rw [hst, callers_next (by rw [hm]; exact hne) hen]
    · exact hm
    · rintro rfl
      exact hnot (Or.inl ha)
    · rintro rfl
      exact hnot (Or.inr ha)

/-- A call that is about to write the eventfd wakes the loop up. -/
theorem not_waking (hfair : Fair r) {n m : ℕ} (hrest : ∀ m, n ≤ m → ¬ LoopSteps r m) (hm : n ≤ m)
    (i : Option ι) : (r.st m).callers i ≠ .waking := by
  intro hi
  obtain ⟨j, hj, hw, ha⟩ := caller_steps hfair hi (fun h => by cases h)
  refine not_canMove hfair hrest (m := j + 1) (by omega) (Or.inr ?_)
  rcases step_cases r j with ⟨hnone, -⟩ | ⟨a, ha', hen, hst⟩
  · rw [hnone] at ha
    rcases ha with ha | ha
    · cases ha
    · cases ha
  · rw [ha', Option.some.injEq, Option.some.injEq] at ha
    rcases ha with rfl | rfl
    · obtain ⟨k, hk⟩ := hen
      rw [hw] at hk
      cases hk
    · rw [hst]
      rfl

/-- As long as a task is not executed, the loop takes steps. -/
theorem exists_loopSteps (hfair : Fair r) {n : ℕ}
    (hlt : (r.st n).executed.length < (r.st n).submitted.length) :
    ∃ m, n ≤ m ∧ LoopSteps r m := by
  by_contra hnone
  have hrest : ∀ m, n ≤ m → ¬ LoopSteps r m := fun m hm hl => hnone ⟨m, hm, hl⟩
  have hreach : Reachable ((system ι τ).guarded SkipsTaken) (r.st n) :=
    (r.reachable n).of_stuttering
  have hstuck := not_canMove hfair hrest (le_refl n)
  unfold CanMove at hstuck
  push Not at hstuck
  obtain ⟨hpc, hw⟩ := hstuck
  have hconserved := conserved_of_reachable hreach.of_guarded
  have htasks : (r.st n).tasks ≠ [] := by
    intro hnil
    unfold Conserved at hconserved
    rw [hpc, hnil] at hconserved
    rw [← hconserved] at hlt
    simp [LoopPc.rest] at hlt
  have hawake := (awake_of_reachable hreach).awake (by rw [hpc]; exact id) htasks
  rcases hawake with hw' | ⟨i, hi | ⟨k, hi, -⟩⟩
  · exact hw hw'
  · exact not_waking hfair hrest (le_refl n) i hi
  · -- the flag is read as false, since the loop is in `poll`
    obtain ⟨m, hm, hpushed, ha⟩ := caller_steps hfair hi (fun h => by cases h)
    refine not_waking hfair hrest (m := m + 1) (by omega) i ?_
    rcases step_cases r m with ⟨hnone, -⟩ | ⟨a, ha', hen, hst⟩
    · rw [hnone] at ha
      rcases ha with ha | ha
      · cases ha
      · cases ha
    · rw [ha', Option.some.injEq, Option.some.injEq] at ha
      rcases ha with rfl | rfl
      · have hreach' : Reachable ((system ι τ).guarded SkipsTaken) (r.st m) :=
          (r.reachable m).of_stuttering
        have hflag := (awake_of_reachable hreach').flag
        rw [(unnoticed_of_rest hrest hm).pc, hpc] at hflag
        rw [hst]
        show Function.update (r.st m).callers i (if (r.st m).isInTaskHanding then _ else _) i = _
        rw [Function.update_self, hflag]
        rfl
      · rw [show (r.st m).callers i = .waking from hen] at hpushed
        cases hpushed

/-- The history only grows. -/
theorem history_next (h : s.Enabled a) : s.submitted <+: (s.next a).submitted ∧
    s.executed <+: (s.next a).executed := by
  cases a with
  | push i task => exact ⟨List.prefix_append .., List.prefix_refl _⟩
  | startTask =>
      obtain ⟨task, rest, hpc⟩ := h
      simp only [next, hpc]
      exact ⟨List.prefix_refl _, List.prefix_append ..⟩
  | endTask =>
      obtain ⟨⟨rest, hpc⟩, -⟩ := h
      simp only [next, hpc]
      exact ⟨List.prefix_refl _, List.prefix_refl _⟩
  | _ => exact ⟨List.prefix_refl _, List.prefix_refl _⟩

theorem history_of_le {n m : ℕ} (hm : n ≤ m) : (r.st n).submitted <+: (r.st m).submitted ∧
    (r.st n).executed <+: (r.st m).executed := by
  induction hm with
  | refl => exact ⟨List.prefix_refl _, List.prefix_refl _⟩
  | @step m hm ih =>
      rcases step_cases r m with ⟨-, hst⟩ | ⟨a, -, hen, hst⟩
      · rw [hst]
        exact ih
      · rw [hst]
        have h := history_next hen
        exact ⟨ih.1.trans h.1, ih.2.trans h.2⟩

theorem exists_executed (hfair : Fair r) {n : ℕ} (hk : k < (r.st n).submitted.length) :
    ∃ m, n ≤ m ∧ k < (r.st m).executed.length := by
  have hsubmitted : ∀ m, n ≤ m → k < (r.st m).submitted.length := fun m hm =>
    hk.trans_le (history_of_le hm).1.length_le
  have hloop : ∀ m, n ≤ m → LoopSteps r m → k < (r.st (m + 1)).executed.length ∨
      stepsTo k (r.st (m + 1)) < stepsTo k (r.st m) := by
    rintro m hm ⟨a, ha, hl⟩
    by_cases hne : k < (r.st m).executed.length
    · exact Or.inl (hne.trans_le (history_of_le (Nat.le_succ m)).2.length_le)
    · rcases step_cases r m with ⟨hnone, -⟩ | ⟨b, hb, hen, hst⟩
      · rw [hnone] at ha
        cases ha
      · rw [hb] at ha
        obtain rfl := Option.some.inj ha
        rw [hst]
        exact stepsTo_next (conserved_of_reachable (r.reachable m).of_stuttering.of_guarded)
          (hsubmitted m hm) (Nat.not_lt.mp hne) hen hl
  have hle : ∀ m, n ≤ m → ¬ k < (r.st (m + 1)).executed.length →
      stepsTo k (r.st (m + 1)) ≤ stepsTo k (r.st m) := by
    intro m hm hnot
    by_cases hl : LoopSteps r m
    · exact ((hloop m hm hl).resolve_left hnot).le
    · have hun := unnoticed_step hl
      unfold stepsTo
      rw [hun.pc, hun.executed]
  have hdrop : ∀ m, n ≤ m → ∃ j, m ≤ j ∧ (k < (r.st (j + 1)).executed.length ∨
      stepsTo k (r.st (j + 1)) < stepsTo k (r.st j)) := by
    intro m hm
    by_cases hne : k < (r.st m).executed.length
    · exact ⟨m, le_refl m, Or.inl (hne.trans_le (history_of_le (Nat.le_succ m)).2.length_le)⟩
    · have hlt : (r.st m).executed.length < (r.st m).submitted.length := by
        have := hsubmitted m hm
        omega
      obtain ⟨j, hj, hl⟩ := exists_loopSteps hfair hlt
      exact ⟨j, hj, hloop j (hm.trans hj) hl⟩
  obtain ⟨m, hm, hexec⟩ := eventually_of_rank (fun m => stepsTo k (r.st m)) hle hdrop
  exact ⟨m + 1, hm.trans (Nat.le_succ m), hexec⟩

/-- **Liveness**: in every run in which no thread stops for ever and no call gives its wake-up to a
swap that is over, a task that was submitted is executed. -/
theorem tasks_eventually_run (r : Run ((system ι τ).guarded SkipsTaken).stuttering) (hfair : Fair r)
    {n k : ℕ} {task : τ} (hk : (r.st n).submitted[k]? = some task) :
    ∃ m, n ≤ m ∧ (r.st m).executed[k]? = some task := by
  obtain ⟨hlt, rfl⟩ := List.getElem?_eq_some_iff.mp hk
  obtain ⟨m, hm, hexec⟩ := exists_executed hfair hlt
  refine ⟨m, hm, ?_⟩
  -- what is executed is the beginning of what is submitted
  have hprefix : (r.st m).executed <+: (r.st m).submitted := by
    have hc := conserved_of_reachable (r.reachable m).of_stuttering.of_guarded
    unfold Conserved at hc
    rw [List.append_assoc] at hc
    exact ⟨_, hc⟩
  rw [List.getElem?_eq_getElem hexec, hprefix.getElem hexec, (history_of_le hm).1.getElem hlt]

end Runs

theorem tasks_eventually_run_ownTask : ∃ m, 2 ≤ m ∧ (ownTaskRun.st m).executed[0]? = some 7 := by
  have hfair : Fair ownTaskRun := by
    refine fair_of_end (fun m hm => statesAlong_of_le next {} ownTask hm) ?_ ?_
    · rintro (hpc | hw)
      · exact hpc rfl
      · cases hw
    · rintro (_ | ⟨⟩)
      · rfl
      · rfl
  exact tasks_eventually_run ownTaskRun hfair rfl

/-- The run in which a task is left behind the swap is fair, and the task never runs. -/
theorem task_starves : ∃ r : Run (system Unit ℕ).stuttering, Fair r ∧
    (∃ n, (r.st n).submitted[1]? = some 2) ∧ ∀ n, (r.st n).executed[1]? = none := by
  have hpath : Path (system Unit ℕ) {} lateTask (lateTask.foldl next {}) := by
    refine .cons ⟨⟨rfl, nofun⟩, rfl⟩ (.cons ⟨⟨0, rfl⟩, rfl⟩ (.cons ⟨rfl, rfl⟩ ?_))
    refine .cons ⟨⟨rfl, fun _ => rfl⟩, rfl⟩ (.cons ⟨⟨rfl, rfl⟩, rfl⟩ (.cons ⟨⟨rfl, rfl⟩, rfl⟩ ?_))
    refine .cons ⟨rfl, rfl⟩ (.cons ⟨⟨1, [], rfl⟩, rfl⟩ (.cons ⟨⟨rfl, nofun⟩, rfl⟩ ?_))
    exact .cons ⟨⟨1, rfl⟩, rfl⟩ (.cons ⟨⟨⟨[], rfl⟩, rfl⟩, rfl⟩ (.cons ⟨rfl, rfl⟩ (.nil _)))
  have hend : ∀ m, 12 ≤ m → statesAlong next {} lateTask m = lateTask.foldl next {} :=
    fun m hm => statesAlong_of_le next {} lateTask hm
  refine ⟨hpath.run (fun _ _ _ h => h.2) rfl, fair_of_end hend ?_ ?_, ⟨12, rfl⟩, fun n => ?_⟩
  · rintro (hpc | hw)
    · exact hpc rfl
    · cases hw
  · rintro (_ | ⟨⟩)
    · rfl
    · rfl
  · show (statesAlong next {} lateTask n).executed[1]? = none
    by_cases hn : 12 ≤ n
    · rw [hend n hn]
      rfl
    · have hshort : ∀ n < 12, (statesAlong next {} lateTask n).executed[1]? = none := by decide
      exact hshort n (Nat.not_le.mp hn)

end EventLoop

end Dagger
