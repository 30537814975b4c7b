import Dagger.CancelledTimers
import Dagger.TimerDelays

/-! # Resetting a one-shot timer

`resetOneTask` arms the timerfd again, and leaves the epoll set as it is.  The read callback of
`addOneTask` takes its descriptor out of the epoll set after the task, so that a timer that is
reset from its own task, or later, is armed but no longer watched.

A callback that was running when its timer was cancelled does the same to the timer that gets its
descriptor next.  `rearms_iff` puts the condition in terms of the run since the timer was added. -/

namespace Dagger.TimerLoop

open Transition

variable {s t u v : TimerLoop} {a : Act} {as : List Act} {k : ℕ} {time : UInt32}

/-- A callback of `addOneTask` is in progress on the descriptor of the timer. -/
def InCallback (s : TimerLoop) (k : ℕ) : Prop :=
  ∃ j, s.task = some j ∧ (s.handlers j).oneTask = true ∧ (s.handlers j).fd = (s.handlers k).fd

/-- The state after the callback in progress, if there is one, has returned. -/
def completed (s : TimerLoop) : TimerLoop := s.next .taskReturns

/-- What `resetOneTask(time)` is for. -/
structure Rearms (s : TimerLoop) (k : ℕ) (time : UInt32) : Prop where
  settime : s.resetOneTask k time =
    s.timerfdSettime (s.handlers k).fd (TimerCall.resetOneTask time).spec
  worth : (TimerCall.resetOneTask time).spec.it_value.worth = time.toNat * 1000000
  armed : ((s.resetOneTask k time).completed.handlers k).armed = true
  registered : ((s.resetOneTask k time).completed.handlers k).registered = true

/-! ### The end of a callback -/

theorem armed_removeEvent (fd k : ℕ) :
    ((s.removeEvent fd).handlers k).armed = (s.handlers k).armed := by
  unfold removeEvent onFd
  dsimp only
  split_ifs <;> rfl

theorem armed_completed (k : ℕ) : (s.completed.handlers k).armed = (s.handlers k).armed := by
  unfold completed next
  dsimp only
  split
  · rfl
  · split_ifs
    · exact armed_removeEvent _ k
    · rfl

/-- The callback of a one-shot timer takes what has its descriptor out of the epoll set. -/
theorem registered_completed (hk : s.Live k) : (s.completed.handlers k).registered = true ↔
    (s.handlers k).registered = true ∧ ¬ s.InCallback k := by
  unfold completed next InCallback
  dsimp only
  split
  · rename_i htask
    simp [htask]
  · rename_i j htask
    by_cases hone : (s.handlers j).oneTask = true
    · rw [if_pos hone]
      show ((s.removeEvent (s.handlers j).fd).handlers k).registered = true ↔ _
      unfold removeEvent onFd
      by_cases hfd : (s.handlers k).fd = (s.handlers j).fd
      · have ho : (s.handlers k).isOpen = true := hk
        simp [hfd, htask, hone, ho]
      · have hfd' : ¬ (s.handlers j).fd = (s.handlers k).fd := fun he => hfd he.symm
        simp [hfd, hfd', htask]
    · rw [if_neg hone]
      simp [htask, hone]

/-! ### One call -/

theorem handlers_resetOneTask (h : s.Sound) (hk : s.Live k) :
    (s.resetOneTask k time).handlers k = { s.handlers k with
      armed := decide ((TimerCall.resetOneTask time).spec.it_value ≠ ⟨0, 0⟩)
      repeats := decide ((TimerCall.resetOneTask time).spec.it_interval ≠ ⟨0, 0⟩)
      readable := false } := by
  rw [resetOneTask_eq, h.timerfd k hk]
  unfold timerfdSettime
  rw [h.numbered.onFd hk, handlers_setHandler_self]

theorem inCallback_resetOneTask (k j : ℕ) :
    (s.resetOneTask j time).InCallback k ↔ s.InCallback k := by
  have hs := steady_timerfdSettime (s := s) (s.handlers j).timerfd ⟨⟨0, 0⟩, .ofMs time⟩
  unfold InCallback resetOneTask
  refine exists_congr fun i => ?_
  rw [(hs i).oneTask, (hs i).fd, (hs k).fd]
  exact Iff.rfl

/-- The call re-arms the timer if its event is registered and stays so. -/
theorem rearms_iff_registered (h : s.Sound) (hk : s.Live k) (htime : time ≠ 0) :
    s.Rearms k time ↔ (s.handlers k).registered = true ∧ ¬ s.InCallback k := by
  have hat := @handlers_resetOneTask s k time h hk
  have hlive : (s.resetOneTask k time).Live k := by
    unfold Live
    rw [hat]
    exact hk
  have hregistered : ((s.resetOneTask k time).completed.handlers k).registered = true ↔
      (s.handlers k).registered = true ∧ ¬ s.InCallback k := by
    rw [registered_completed hlive, inCallback_resetOneTask, hat]
  have henc := (TimerCall.resetOneTask time).encoded_iff.mpr (Or.inr htime)
  constructor
  · intro hr
    exact hregistered.mp hr.registered
  · intro hr
    refine ⟨?_, timespec_worth time, ?_, hregistered.mpr hr⟩
    · rw [resetOneTask_eq, h.timerfd k hk]
    · rw [armed_completed, hat]
      exact decide_eq_true henc.arms

/-! ### One step -/

/-- A timer that is live after a step was live before it, and its event is registered unless a
callback on its descriptor has just returned. -/
structure Watched (s : TimerLoop) (a : Act) (t : TimerLoop) (k : ℕ) : Prop where
  live : s.Live k
  fd : (t.handlers k).fd = (s.handlers k).fd
  registered : (t.handlers k).registered = true ↔ (s.handlers k).registered = true ∧
    ¬ (a = .taskReturns ∧ s.InCallback k)

theorem Watched.of_handler (hk : t.Live k) (hh : t.handlers k = s.handlers k)
    (ha : a ≠ .taskReturns) : Watched s a t k := by
  refine ⟨?_, congrArg _ hh, ?_⟩
  · unfold Live at hk ⊢
    rwa [hh] at hk
  · rw [hh]
    exact (and_iff_left fun hret => ha hret.1).symm

/-- A call of `cancelTimer` on another handler, or one that does nothing. -/
theorem handlers_cancelTimer (h : s.Sound) {j : ℕ} (hk : (s.cancelTimer j).2.Live k) :
    (s.cancelTimer j).2.handlers k = s.handlers k := by
  rcases cancelTimer_cases (k := j) h with he | ⟨-, he⟩
  · rw [he]
  · rw [he] at hk ⊢
    by_cases hkj : k = j
    · unfold Live at hk
      rw [hkj, handlers_setHandler_self] at hk
      cases hk
    · exact handlers_setHandler_ne hkj _

theorem handlers_destroyTimer (h : s.Sound) {timer : TimerId} {order : List ℕ}
    (hk : (s.destroyTimer timer order).Live k) :
    (s.destroyTimer timer order).handlers k = s.handlers k := by
  unfold Live destroyTimer at hk
  unfold destroyTimer
  rcases cancelAll_cases h order with ⟨-, ho⟩ | ⟨j, -, -, ho⟩
  · rw [ho]
  · rw [ho] at hk ⊢
    by_cases hkj : k = j
    · rw [hkj] at hk
      have hdead : (s.setHandler j (s.handlers j).cancelled).Live j := hk
      unfold Live at hdead
      rw [handlers_setHandler_self] at hdead
      cases hdead
    · exact handlers_setHandler_ne hkj _

theorem registered_timerfdSettime (fd : ℕ) (spec : Itimerspec) (k : ℕ) :
    ((s.timerfdSettime fd spec).handlers k).registered = (s.handlers k).registered := by
  unfold timerfdSettime onFd
  dsimp only
  split_ifs <;> rfl

theorem registered_readTimerfd (fd k : ℕ) :
    ((s.readTimerfd fd).handlers k).registered = (s.handlers k).registered := by
  unfold readTimerfd onFd
  dsimp only
  split_ifs <;> rfl

theorem Watched.steady (hs : ∀ k, Steady (s.handlers k) (t.handlers k)) (hk : t.Live k)
    (hr : (t.handlers k).registered = (s.handlers k).registered) (ha : a ≠ .taskReturns) :
    Watched s a t k := by
  refine ⟨?_, (hs k).fd, ?_⟩
  · unfold Live at hk ⊢
    rwa [(hs k).isOpen] at hk
  · rw [hr]
    exact (and_iff_left fun hret => ha hret.1).symm

theorem watched_step (h : s.Sound) (hk : k < s.created) (hs : system.Step s a t)
    (hlive : t.Live k) : Watched s a t k := by
  obtain ⟨-, hl, rfl⟩ := hs
  cases a with
  | addOneTask timer time fd =>
      exact .of_handler hlive (handlers_addTask_ne (Nat.ne_of_lt hk) ..) nofun
  | addTimedTask timer first interval fd =>
      exact .of_handler hlive (handlers_addTask_ne (Nat.ne_of_lt hk) ..) nofun
  | cancelTimer j => exact .of_handler hlive (handlers_cancelTimer h hlive) nofun
  | resetOneTask j time =>
      exact .steady (steady_timerfdSettime _ _) hlive (registered_timerfdSettime _ _ k) nofun
  | destroyTimer timer order => exact .of_handler hlive (handlers_destroyTimer h hlive) nofun
  | expire j =>
      refine .steady (steady_expire hl.1) hlive ?_ nofun
      show ((s.setHandler j _).handlers k).registered = _
      by_cases hkj : k = j
      · rw [hkj, handlers_setHandler_self]
      · rw [handlers_setHandler_ne hkj]
  | poll batch => exact .of_handler hlive rfl nofun
  | handle =>
      unfold next at hlive ⊢
      dsimp only at hlive ⊢
      split at hlive
      · exact .of_handler hlive rfl nofun
      · exact .steady (steady_readTimerfd _) hlive (registered_readTimerfd _ k) nofun
  | taskReturns =>
      have hsteady := (passed_next hl trivial).handlers
      have hbefore : s.Live k := by
        unfold Live at hlive ⊢
        rwa [(hsteady k).isOpen] at hlive
      refine ⟨hbefore, (hsteady k).fd, ?_⟩
      rw [show (s.next .taskReturns) = s.completed from rfl, registered_completed hbefore]
      simp
  | openOther fd => exact .of_handler hlive rfl nofun
  | closeOther fd => exact .of_handler hlive rfl nofun

/-- A timer keeps its descriptor and its callback. -/
theorem kept_step (h : s.Sound) (hk : k < s.created) (hs : system.Step s a t) :
    Kept (s.handlers k) (t.handlers k) := by
  obtain ⟨-, hl, rfl⟩ := hs
  have hrefl : Kept (s.handlers k) (s.handlers k) := ⟨rfl, rfl, id⟩
  cases a with
  | addOneTask timer time fd =>
      show Kept _ ((s.addTask ..).handlers k)
      rw [handlers_addTask_ne (Nat.ne_of_lt hk)]
      exact hrefl
  | addTimedTask timer first interval fd =>
      show Kept _ ((s.addTask ..).handlers k)
      rw [handlers_addTask_ne (Nat.ne_of_lt hk)]
      exact hrefl
  | cancelTimer j =>
      show Kept _ ((s.cancelTimer j).2.handlers k)
      rcases cancelTimer_cases (k := j) h with he | ⟨-, he⟩
      · rw [he]
        exact hrefl
      · rw [he]
        exact kept_setHandler_cancelled j k
  | destroyTimer timer order =>
      show Kept _ ((s.cancelAll order).handlers k)
      rcases cancelAll_cases h order with ⟨-, ho⟩ | ⟨j, -, -, ho⟩
      · rw [ho]
        exact hrefl
      · rw [ho]
        exact kept_setHandler_cancelled j k
  | _ => exact ((passed_next hl trivial).handlers k).kept

theorem task_destroyTimer (h : s.Sound) (timer : TimerId) (order : List ℕ) :
    (s.destroyTimer timer order).task = s.task := by
  show (s.cancelAll order).task = s.task
  rcases cancelAll_cases h order with ⟨-, ho⟩ | ⟨j, -, -, ho⟩
  · rw [ho]
  · rw [ho]
    rfl

/-- A task that runs goes on until it returns. -/
theorem task_step (h : s.Sound) {j : ℕ} (hs : system.Step s a t) (ha : a ≠ .taskReturns)
    (htask : s.task = some j) : t.task = some j := by
  obtain ⟨-, hl, rfl⟩ := hs
  cases a with
  | cancelTimer i =>
      show (s.cancelTimer i).2.task = _
      rcases cancelTimer_cases (k := i) h with he | ⟨-, he⟩
      · rw [he]
        exact htask
      · rw [he]
        exact htask
  | destroyTimer timer order => exact (task_destroyTimer h timer order).trans htask
  | handle =>
      rw [hl.1] at htask
      cases htask
  | taskReturns => exact absurd rfl ha
  | _ => exact htask

/-- A callback in progress stays so until it returns. -/
theorem inCallback_step (h : s.Sound) (hk : k < s.created) (hs : system.Step s a t)
    (ha : a ≠ .taskReturns) (hc : s.InCallback k) : t.InCallback k := by
  obtain ⟨j, htask, hone, hfd⟩ := hc
  have hj := kept_step h (h.active j (Or.inr htask)) hs
  have hk' := kept_step h hk hs
  refine ⟨j, task_step h hs ha htask, ?_, ?_⟩
  · rw [hj.oneTask]
    exact hone
  · rw [hj.fd, hk'.fd]
    exact hfd

/-! ### The run since the timer was added -/

/-- No callback is in progress on the descriptor of the timer in the states of the path, the last
one included. -/
def NoCallbackSince (v : TimerLoop) (as : List Act) (s : TimerLoop) (k : ℕ) : Prop :=
  Path (system.guarded fun s _ => ¬ s.InCallback k) v as s ∧ ¬ s.InCallback k

theorem created_step (h : s.Sound) (hs : system.Step s a t) : s.created ≤ t.created := by
  obtain ⟨-, hl, rfl⟩ := hs
  cases a with
  | addOneTask timer time fd => exact Nat.le_succ _
  | addTimedTask timer first interval fd => exact Nat.le_succ _
  | cancelTimer j =>
      rcases cancelTimer_cases (k := j) h with he | ⟨-, he⟩
      · exact Nat.le_of_eq (congrArg (fun r => r.2.created) he).symm
      · exact Nat.le_of_eq (congrArg (fun r => r.2.created) he).symm
  | destroyTimer timer order =>
      rcases cancelAll_cases h order with ⟨-, ho⟩ | ⟨j, -, -, ho⟩
      · exact Nat.le_of_eq (congrArg created ho).symm
      · exact Nat.le_of_eq (congrArg created ho).symm
  | _ => exact Nat.le_of_eq (passed_next hl trivial).created.symm

theorem live_of_path (hpath : Path system v as s) (hv : v.Sound) (hk : k < v.created)
    (hlive : s.Live k) : v.Live k := by
  induction hpath with
  | nil => exact hlive
  | cons hs _ ih =>
      have hlive' := ih (sound_step hv hs) (Nat.lt_of_lt_of_le hk (created_step hv hs)) hlive
      exact (watched_step hv hk hs hlive').live

/-- Along a path, by induction from its end: the event is still registered exactly when no
callback has come in between. -/
theorem registered_iff_of_path (hpath : Path system v as s) (hv : v.Sound) (hk : k < v.created)
    (hlive : s.Live k) :
    (s.handlers k).registered = true ∧ ¬ s.InCallback k ↔
      (v.handlers k).registered = true ∧ NoCallbackSince v as s k := by
  induction hpath with
  | nil =>
      exact and_congr_right fun _ => (and_iff_right (Path.nil _)).symm
  | @cons v w s a as hs hpath ih =>
      have hw := sound_step hv hs
      have hkw := Nat.lt_of_lt_of_le hk (created_step hv hs)
      have hlivew := live_of_path hpath hw hkw hlive
      rw [ih hw hkw hlive, (watched_step hv hk hs hlivew).registered]
      constructor
      · rintro ⟨⟨hr, hret⟩, hpath', hend⟩
        have hno : ¬ v.InCallback k := by
          intro hc
          have hcw := inCallback_step hv hk hs (fun ha => hret ⟨ha, hc⟩) hc
          cases hpath' with
          | nil => exact hend hcw
          | cons h1 _ => exact h1.2 hcw
        exact ⟨hr, .cons ⟨hs, hno⟩ hpath', hend⟩
      · rintro ⟨hr, hpath', hend⟩
        cases hpath' with
        | cons h1 hrest =>
            obtain ⟨⟨-, -, rfl⟩, hno⟩ := h1
            obtain ⟨-, -, rfl⟩ := hs
            exact ⟨⟨hr, fun hret => hno hret.2⟩, hrest, hend⟩

/-- **A reset re-arms** a timer that is not cancelled exactly when no callback of a one-shot timer
has begun on its descriptor since it was added. -/
theorem rearms_iff {timer : TimerId} {occurTime : UInt32} {fd : ℕ} (hu : Reachable system u)
    (hadd : system.Step u (.addOneTask timer occurTime fd) v) (hpath : Path system v as s)
    (hlive : s.Live u.created) (htime : time ≠ 0) :
    s.Rearms u.created time ↔ NoCallbackSince v as s u.created := by
  have hv : v.Sound := sound_of_reachable (hu.step hadd)
  have hs : s.Sound := sound_of_reachable (hpath.reachable (hu.step hadd))
  obtain ⟨-, -, rfl⟩ := hadd
  have hregistered : ((u.next (.addOneTask timer occurTime fd)).handlers u.created).registered =
      true := by
    show ((u.addTask ..).handlers u.created).registered = true
    rw [handlers_addTask_self]
  rw [rearms_iff_registered hs hlive htime,
    registered_iff_of_path hpath hv (Nat.lt_succ_self _) hlive]
  exact and_iff_right hregistered

/-- A timer that is armed and watched runs its task when it has expired. -/
theorem task_of_armed (hf : s.terminated = false) (hb : s.batch = []) (ht : s.task = none)
    (hk : s.Live k) (ha : (s.handlers k).armed = true) (hr : (s.handlers k).registered = true) :
    ∃ t, Path system s [.expire k, .poll [k], .handle] t ∧ t.task = some k := by
  have h1 : system.Step s (.expire k) (s.next (.expire k)) := ⟨hf, ⟨hk, ha⟩, rfl⟩
  have h2 :
      system.Step (s.next (.expire k)) (.poll [k]) ((s.next (.expire k)).next (.poll [k])) := by
    refine ⟨hf, ⟨hb, ht, by simp, ?_⟩, rfl⟩
    intro j hj
    obtain rfl := List.mem_singleton.mp hj
    unfold next
    dsimp only
    rw [handlers_setHandler_self]
    exact ⟨hr, rfl⟩
  refine ⟨_, .cons h1 (.cons h2 (.cons ⟨hf, ⟨ht, List.cons_ne_nil k []⟩, rfl⟩ (.nil _))), rfl⟩

/-- A reset before the timer expires. -/
theorem rearms_iff_early : (standard.addOneTask 0 100 3).Rearms 0 50 := by
  have hadd : system.Step standard (.addOneTask 0 100 3) (standard.addOneTask 0 100 3) :=
    ⟨rfl, ⟨rfl, lowestFree_three rfl nofun⟩, rfl⟩
  refine (rearms_iff (.init ⟨[0, 1, 2], rfl⟩) hadd (.nil _) rfl (by decide)).mpr ⟨.nil _, ?_⟩
  rintro ⟨j, htask, -⟩
  exact Option.some_ne_none j htask.symm

/-- The timer expires and its task is run. -/
def runTask : List Act := [.addOneTask 0 100 3, .expire 0, .poll [0], .handle, .taskReturns]

/-- A reset after the task has run: the timer is not cancelled, and not watched either. -/
theorem reset_after_task : Path system standard runTask (standard.after runTask) ∧
    (standard.after runTask).Live 0 ∧
    ((standard.after runTask).resetOneTask 0 50).task = none ∧
    (((standard.after runTask).resetOneTask 0 50).handlers 0).armed = true ∧
    (((standard.after runTask).resetOneTask 0 50).handlers 0).registered = false ∧
    ¬ (standard.after runTask).Rearms 0 50 := by
  refine ⟨?_, rfl, rfl, by decide, rfl, fun h => ?_⟩
  · refine .cons ⟨rfl, ⟨rfl, lowestFree_three rfl nofun⟩, rfl⟩ ?_
    refine .cons ⟨rfl, ⟨rfl, by decide⟩, rfl⟩ ?_
    refine .cons ⟨rfl, ⟨rfl, rfl, by decide, by decide⟩, rfl⟩ ?_
    refine .cons ⟨rfl, ⟨rfl, by decide⟩, rfl⟩ ?_
    exact .cons ⟨rfl, Option.some_ne_none 0, rfl⟩ (.nil _)
  · exact absurd h.registered (by decide)

end Dagger.TimerLoop
