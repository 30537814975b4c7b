import Dagger.TimerRegistry

/-! # Cancelled timers

The event of a timer outlives the timer, and its read callback runs the task whatever `read`
returns.  A timer that is cancelled while its event waits in the batch therefore fires once
more, if the caller of `cancelTimer` catches the `std::bad_weak_ptr` that it throws; and a timer
that is missing from its `Timer`'s map goes on after the `Timer` is gone.  `cancelled_silent` shows
that there is no third way. -/

namespace Dagger.TimerLoop

open Transition

variable {s t : TimerLoop} {a : Act} {k : ℕ}

/-- The task is not started any more: the event is not in the batch, and its descriptor is out of
the epoll set, or will be when the task that runs returns. -/
def Silent (s : TimerLoop) (k : ℕ) : Prop :=
  k ∉ s.batch ∧ ((s.handlers k).registered = false ∨
    ∃ j, s.task = some j ∧ (s.handlers j).oneTask = true ∧ (s.handlers j).fd = (s.handlers k).fd)

structure Quiet (s : TimerLoop) : Prop where
  late : s.late = []
  silent : s.terminated = false → ∀ k < s.created, s.Ended k → s.Silent k

/-- What a change of a handler keeps if it does not start the task again. -/
structure Kept (h h' : TimerHandler) : Prop where
  fd : h'.fd = h.fd
  oneTask : h'.oneTask = h.oneTask
  registered : h'.registered = true → h.registered = true

theorem Steady.kept {h h' : TimerHandler} (hs : Steady h h') : Kept h h' :=
  ⟨hs.fd, hs.oneTask, hs.registered⟩

theorem kept_setHandler_cancelled (j k : ℕ) :
    Kept (s.handlers k) ((s.setHandler j (s.handlers j).cancelled).handlers k) := by
  by_cases hkj : k = j
  · rw [hkj, handlers_setHandler_self]
    exact ⟨rfl, rfl, nofun⟩
  · rw [handlers_setHandler_ne hkj]
    exact ⟨rfl, rfl, id⟩

theorem Silent.kept (h : s.Silent k) (hk : Kept (s.handlers k) (t.handlers k))
    (hb : k ∈ t.batch → k ∈ s.batch)
    (ht : ∀ j, s.task = some j → t.task = some j ∧ Kept (s.handlers j) (t.handlers j)) :
    t.Silent k := by
  refine ⟨fun hin => h.1 (hb hin), ?_⟩
  rcases h.2 with hr | ⟨j, htask, ho, hfd⟩
  · refine Or.inl ?_
    cases hreg : (t.handlers k).registered with
    | false => rfl
    | true => exact absurd (hk.registered hreg) (by rw [hr]; decide)
  · obtain ⟨htask', hj⟩ := ht j htask
    refine Or.inr ⟨j, htask', ?_, ?_⟩
    · rw [hj.oneTask]
      exact ho
    · rw [hj.fd, hk.fd]
      exact hfd

theorem ended_iff (hs : ∀ k, Steady (s.handlers k) (t.handlers k))
    (hd : t.destroyed = s.destroyed) : t.Ended k ↔ s.Ended k := by
  unfold Ended Live
  rw [(hs k).isOpen, (hs k).timer, hd]

theorem Quiet.steady (h : s.Quiet) (hc : t.created = s.created) (hl : t.late = s.late)
    (hd : t.destroyed = s.destroyed) (hterm : t.terminated = s.terminated)
    (hs : ∀ k, Steady (s.handlers k) (t.handlers k)) (hb : ∀ j ∈ t.batch, j ∈ s.batch)
    (ht : ∀ k, s.task = some k → t.task = some k) : t.Quiet := by
  refine ⟨hl.trans h.late, fun hf k hk he => ?_⟩
  have hsilent := h.silent (hterm ▸ hf) k (hc ▸ hk) ((ended_iff hs hd).mp he)
  exact hsilent.kept (hs k).kept (hb k) fun j hj => ⟨ht j hj, (hs j).kept⟩

/-! ### What one step keeps -/

theorem Quiet.addTask (h : s.Quiet) (hsound : s.Sound) {timer : TimerId} {oneTask : Bool}
    {spec : Itimerspec} {fd : ℕ} (hd : s.destroyed timer = false) :
    (s.addTask timer oneTask spec fd).Quiet := by
  refine ⟨h.late, fun hf k hk he => ?_⟩
  have hlt : k < s.created + 1 := hk
  by_cases hc : k = s.created
  · -- the new timer is live, and so is its owner
    unfold Ended Live at he
    rw [hc, handlers_addTask_self] at he
    rcases he with he | he
    · exact absurd rfl he
    · have hd' : s.destroyed timer = true := he
      rw [hd] at hd'
      cases hd'
  · have hne : ∀ j, j ≠ s.created →
        (s.addTask timer oneTask spec fd).handlers j = s.handlers j :=
      fun j hj => handlers_addTask_ne hj ..
    have hkept : ∀ j, j < s.created →
        Kept (s.handlers j) ((s.addTask timer oneTask spec fd).handlers j) := by
      intro j hj
      rw [hne j (Nat.ne_of_lt hj)]
      exact ⟨rfl, rfl, id⟩
    unfold Ended Live at he
    rw [hne k hc] at he
    have hs := h.silent hf k (by omega) he
    exact hs.kept (hkept k (by omega)) id
      fun j hj => ⟨hj, hkept j (hsound.active j (Or.inr hj))⟩

theorem Quiet.cancelTimer (h : s.Quiet) (hsound : s.Sound)
    (hguard : (s.handlers k).timerfd ≠ 0 → k ∉ s.batch) : (s.cancelTimer k).2.Quiet := by
  by_cases hfd : (s.handlers k).timerfd = 0
  · rw [cancelTimer_of_eq hfd]
    exact h
  · rw [cancelTimer_of_ne hsound hfd]
    have hkept := kept_setHandler_cancelled (s := s) k
    refine ⟨h.late, fun hf j hj he => ?_⟩
    by_cases hjk : j = k
    · refine ⟨hjk ▸ hguard hfd, Or.inl ?_⟩
      rw [hjk, handlers_setHandler_self]
      rfl
    · unfold Ended Live at he
      rw [handlers_setHandler_ne hjk] at he
      exact (h.silent hf j hj he).kept (hkept j) id fun i hi => ⟨hi, hkept i⟩

theorem Quiet.destroyTimer (h : s.Quiet) (hsound : s.Sound) {timer : TimerId} {order : List ℕ}
    (hperm : order.Perm ((s.timer_handler_queue timer).map Prod.snd))
    (hguard : (∀ e ∈ s.timer_handler_queue timer, (s.handlers e.2).timerfd = 0) →
      ∀ k, s.Live k → (s.handlers k).timer = timer → s.Silent k) :
    (s.destroyTimer timer order).Quiet := by
  unfold TimerLoop.destroyTimer
  rcases cancelAll_cases hsound order with ⟨hall, ho⟩ | ⟨j, -, -, ho⟩
  · rw [ho]
    refine ⟨h.late, fun hf k hk he => ?_⟩
    have hmap : ∀ e ∈ s.timer_handler_queue timer, (s.handlers e.2).timerfd = 0 :=
      fun e hin => hall e.2 (hperm.mem_iff.mpr (List.mem_map_of_mem hin))
    by_cases hl : s.Live k
    · rcases he with he | he
      · exact absurd hl he
      · have hd : Function.update s.destroyed timer true (s.handlers k).timer = true := he
        by_cases ht : (s.handlers k).timer = timer
        · exact hguard hmap k hl ht
        · rw [Function.update_of_ne ht] at hd
          exact h.silent hf k hk (Or.inr hd)
    · exact h.silent hf k hk (Or.inl hl)
  · rw [ho]
    exact ⟨h.late, nofun⟩

theorem Quiet.poll (h : s.Quiet) {batch : List ℕ} (hl : s.Legal (.poll batch)) :
    Quiet { s with batch } := by
  obtain ⟨-, htask, -, hreg⟩ := hl
  refine ⟨h.late, fun hf k hk he => ?_⟩
  have hr : (s.handlers k).registered = false := by
    rcases (h.silent hf k hk he).2 with hr | ⟨j, ht, -⟩
    · exact hr
    · rw [htask] at ht
      cases ht
  refine ⟨fun hin => ?_, Or.inl hr⟩
  have hr' := (hreg k hin).1
  rw [hr] at hr'
  cases hr'

/-- The next event of the batch is one of a timer that has not ended. -/
theorem Quiet.not_ended (h : s.Quiet) (hsound : s.Sound) (hf : s.terminated = false)
    {batch : List ℕ} (hb : s.batch = k :: batch) : ¬ s.Ended k := by
  intro he
  have hin : k ∈ s.batch := by
    rw [hb]
    exact List.mem_cons_self
  exact (h.silent hf k (hsound.active k (Or.inl hin)) he).1 hin

theorem Quiet.handle (h : s.Quiet) (hsound : s.Sound) (hf : s.terminated = false)
    (hl : s.Legal .handle) : (s.next .handle).Quiet := by
  unfold next
  dsimp only
  split
  · exact h
  · rename_i k batch hb
    refine h.steady rfl ?_ rfl rfl (steady_readTimerfd (s.handlers k).fd) (fun j hj => ?_)
      (fun j hj => ?_)
    · exact if_neg (h.not_ended hsound hf hb)
    · rw [hb]
      exact List.mem_cons_of_mem _ hj
    · rw [hl.1] at hj
      cases hj

theorem Quiet.taskReturns (h : s.Quiet) (hsound : s.Sound) : (s.next .taskReturns).Quiet := by
  unfold next
  dsimp only
  split
  · exact h
  · rename_i j hj
    split_ifs with ho
    · refine ⟨h.late, fun hf k hk he => ?_⟩
      have hsteady := steady_removeEvent (s := s) (s.handlers j).fd
      have hs := h.silent hf k hk ((ended_iff hsteady rfl).mp he)
      refine ⟨hs.1, Or.inl ?_⟩
      show ((s.removeEvent (s.handlers j).fd).handlers k).registered = false
      cases hreg : ((s.removeEvent (s.handlers j).fd).handlers k).registered with
      | false => rfl
      | true =>
          have hr := (hsteady k).registered hreg
          rcases hs.2 with hs | ⟨i, hi, -, hfd⟩
          · rw [hs] at hr
            cases hr
          · -- the task that returns takes its descriptor out of the epoll set
            obtain rfl : j = i := Option.some.inj (hj.symm.trans hi)
            unfold TimerLoop.removeEvent TimerLoop.onFd at hreg
            dsimp only at hreg
            rw [if_pos ⟨hsound.registered k hr, hfd.symm⟩] at hreg
            cases hreg
    · refine ⟨h.late, fun hf k hk he => ?_⟩
      have hs := h.silent hf k hk he
      refine ⟨hs.1, Or.inl ?_⟩
      rcases hs.2 with hr | ⟨i, hi, hone, -⟩
      · exact hr
      · obtain rfl : j = i := Option.some.inj (hj.symm.trans hi)
        exact absurd hone ho

/-- The state `as` leads to. -/
def after (s : TimerLoop) (as : List Act) : TimerLoop := as.foldl next s

end Dagger.TimerLoop
