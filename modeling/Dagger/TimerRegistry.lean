import Dagger.Timer

/-! # The registry of timers

A `Timer` keeps its handlers in a map under their descriptors.  `cancelTimer` should take its
handler out of the map, but `shared_from_this()` throws before, because the base
`enable_shared_from_this` is private; the entry stays under a number that the kernel gives out
again, and the next timer with that number is not inserted.

`Sound` holds in every run.  `timers_registered` shows that the map is complete as long as
`cancelTimer` is not called on a live handler, and what every such call does instead of what it
is for. -/

namespace Dagger

/-- A handler after `cancelTimer`. -/
def TimerHandler.cancelled (h : TimerHandler) : TimerHandler :=
  { h with
    timerfd := 0
    registered := false
    isOpen := false
    armed := false
    repeats := false
    readable := false }

theorem ConcurrentMap.add_eq {um : ConcurrentMap} {fd handler : ℕ} (h : ∀ e ∈ um, e.1 ≠ fd) :
    um.add fd handler = (fd, handler) :: um := by
  unfold ConcurrentMap.add
  rw [if_neg]
  rintro hin
  obtain ⟨e, he, hfd⟩ := List.mem_map.mp hin
  exact h e he hfd

namespace TimerLoop

open Transition

variable {s t : TimerLoop} {a : Act} {k : ℕ}

/-! ### What all runs keep -/

structure Sound (s : TimerLoop) : Prop where
  unused : ∀ k, s.created ≤ k → s.handlers k = {}
  weakThis : ∀ k, (s.handlers k).weakThis = false
  unique : ∀ j k, s.Live j → s.Live k → (s.handlers j).fd = (s.handlers k).fd → j = k
  timerfd : ∀ k, s.Live k → (s.handlers k).timerfd = (s.handlers k).fd
  live : ∀ k, (s.handlers k).timerfd ≠ 0 → s.Live k
  registered : ∀ k, (s.handlers k).registered = true → s.Live k
  active : ∀ k, k ∈ s.batch ∨ s.task = some k → k < s.created

/-- `Sound`, but for the reading of `timerfd_`, which says nothing any more once a copy of the
handler has been cancelled. -/
structure Numbered (s : TimerLoop) : Prop where
  unused : ∀ k, s.created ≤ k → s.handlers k = {}
  weakThis : ∀ k, (s.handlers k).weakThis = false
  unique : ∀ j k, s.Live j → s.Live k → (s.handlers j).fd = (s.handlers k).fd → j = k
  timerfd : ∀ k, s.Live k → (s.handlers k).timerfd = (s.handlers k).fd
  registered : ∀ k, (s.handlers k).registered = true → s.Live k
  active : ∀ k, k ∈ s.batch ∨ s.task = some k → k < s.created

theorem Sound.numbered (h : s.Sound) : s.Numbered :=
  ⟨h.unused, h.weakThis, h.unique, h.timerfd, h.registered, h.active⟩

theorem Numbered.sound (h : s.Numbered) (hl : ∀ k, (s.handlers k).timerfd ≠ 0 → s.Live k) :
    s.Sound :=
  ⟨h.unused, h.weakThis, h.unique, h.timerfd, hl, h.registered, h.active⟩

theorem Numbered.lt_created (h : s.Numbered) (hk : s.Live k) : k < s.created := by
  by_contra hle
  have he := h.unused k (Nat.not_lt.mp hle)
  unfold Live at hk
  rw [he] at hk
  cases hk

theorem Sound.lt_created (h : s.Sound) (hk : s.Live k) : k < s.created := h.numbered.lt_created hk

/-- What the calls that name a descriptor leave alone, but for `close`. -/
structure Steady (h h' : TimerHandler) : Prop where
  timerfd : h'.timerfd = h.timerfd
  timer : h'.timer = h.timer
  weakThis : h'.weakThis = h.weakThis
  fd : h'.fd = h.fd
  oneTask : h'.oneTask = h.oneTask
  isOpen : h'.isOpen = h.isOpen
  registered : h'.registered = true → h.registered = true
  unused : h = {} → h' = {}

theorem Steady.refl (h : TimerHandler) : Steady h h :=
  ⟨rfl, rfl, rfl, rfl, rfl, rfl, id, id⟩

/-- An open handler is in use. -/
theorem absurd_unused {h : TimerHandler} {p : Prop} (ho : h.isOpen = true) (he : h = {}) : p := by
  rw [he] at ho
  cases ho

/-- A change of the open timer with some descriptor. -/
theorem steady_onFd {fd : ℕ} {f : TimerHandler → TimerHandler}
    (hf : ∀ h : TimerHandler, h.isOpen = true → Steady h (f h)) (k : ℕ) :
    Steady (s.handlers k) ((s.onFd fd f).handlers k) := by
  unfold onFd
  dsimp only
  split_ifs with hc
  · exact hf _ hc.1
  · exact .refl _

theorem steady_timerfdSettime (fd : ℕ) (spec : Itimerspec) (k : ℕ) :
    Steady (s.handlers k) ((s.timerfdSettime fd spec).handlers k) := by
  refine steady_onFd ?_ k
  intro h ho
  exact ⟨rfl, rfl, rfl, rfl, rfl, rfl, id, absurd_unused ho⟩

theorem steady_removeEvent (fd : ℕ) (k : ℕ) :
    Steady (s.handlers k) ((s.removeEvent fd).handlers k) := by
  refine steady_onFd ?_ k
  intro h ho
  exact ⟨rfl, rfl, rfl, rfl, rfl, rfl, nofun, absurd_unused ho⟩

theorem steady_readTimerfd (fd : ℕ) (k : ℕ) :
    Steady (s.handlers k) ((s.readTimerfd fd).handlers k) := by
  refine steady_onFd ?_ k
  intro h ho
  exact ⟨rfl, rfl, rfl, rfl, rfl, rfl, id, absurd_unused ho⟩

theorem live_iff_of_steady (hs : ∀ k, Steady (s.handlers k) (t.handlers k)) (k : ℕ) :
    t.Live k ↔ s.Live k := by
  unfold Live
  rw [(hs k).isOpen]

theorem Numbered.steady (h : s.Numbered) (hc : t.created = s.created)
    (hs : ∀ k, Steady (s.handlers k) (t.handlers k))
    (hb : ∀ k, k ∈ t.batch ∨ t.task = some k → k < s.created) : t.Numbered := by
  have hlive := live_iff_of_steady hs
  refine ⟨fun k hk => ?_, fun k => ?_, fun j k hj hk he => ?_, fun k hk => ?_, fun k hk => ?_,
    fun k hk => ?_⟩
  · rw [hc] at hk
    exact (hs k).unused (h.unused k hk)
  · rw [(hs k).weakThis]
    exact h.weakThis k
  · rw [(hs j).fd, (hs k).fd] at he
    exact h.unique j k ((hlive j).mp hj) ((hlive k).mp hk) he
  · rw [(hs k).timerfd, (hs k).fd]
    exact h.timerfd k ((hlive k).mp hk)
  · exact (hlive k).mpr (h.registered k ((hs k).registered hk))
  · rw [hc]
    exact hb k hk

theorem Sound.steady (h : s.Sound) (hc : t.created = s.created)
    (hs : ∀ k, Steady (s.handlers k) (t.handlers k))
    (hb : ∀ k, k ∈ t.batch ∨ t.task = some k → k < s.created) :
    t.Sound := by
  refine (h.numbered.steady hc hs hb).sound fun k hk => ?_
  rw [(hs k).timerfd] at hk
  exact (live_iff_of_steady hs k).mpr (h.live k hk)

/-! ### `cancelTimer` -/

@[simp] theorem handlers_setHandler_self (h : TimerHandler) :
    (s.setHandler k h).handlers k = h := Function.update_self ..

theorem handlers_setHandler_ne {j : ℕ} (hj : j ≠ k) (h : TimerHandler) :
    (s.setHandler k h).handlers j = s.handlers j := Function.update_of_ne hj ..

@[simp] theorem setHandler_setHandler (h h' : TimerHandler) :
    (s.setHandler k h).setHandler k h' = s.setHandler k h' := by
  simp [setHandler]

@[simp] theorem setHandler_self : s.setHandler k (s.handlers k) = s := by
  simp [setHandler]

/-- A call that names the descriptor of a live handler changes that handler. -/
theorem Numbered.onFd_setHandler (h : s.Numbered) (hk : s.Live k) {h' : TimerHandler}
    (ho : h'.isOpen = true) (hfd : h'.fd = (s.handlers k).fd) (f : TimerHandler → TimerHandler) :
    (s.setHandler k h').onFd (s.handlers k).fd f = s.setHandler k (f h') := by
  unfold TimerLoop.onFd
  show TimerLoop.mk .. = TimerLoop.mk ..
  congr 1
  funext j
  by_cases hj : j = k
  · subst hj
    simp only [handlers_setHandler_self]
    rw [if_pos ⟨ho, hfd⟩, Function.update_self]
  · rw [handlers_setHandler_ne hj, Function.update_of_ne hj, if_neg]
    rintro ⟨hl, he⟩
    exact hj (h.unique j k hl hk he)

theorem Numbered.onFd (h : s.Numbered) (hk : s.Live k) (f : TimerHandler → TimerHandler) :
    s.onFd (s.handlers k).fd f = s.setHandler k (f (s.handlers k)) := by
  have he := h.onFd_setHandler hk hk rfl f
  rwa [setHandler_self] at he

/-- What is left of the timer when its descriptor was disarmed, removed and closed. -/
theorem Numbered.close_eq (h : s.Numbered) (hk : s.Live k) :
    ((s.timerfdSettime (s.handlers k).fd .zero).removeEvent (s.handlers k).fd).close
      (s.handlers k).fd =
    s.setHandler k { s.handlers k with
      registered := false, isOpen := false, armed := false, repeats := false
      readable := false } := by
  let h₁ := { s.handlers k with armed := false, repeats := false, readable := false }
  let h₂ := { h₁ with registered := false }
  have e₁ : s.timerfdSettime (s.handlers k).fd .zero = s.setHandler k h₁ := h.onFd hk _
  have e₂ : (s.setHandler k h₁).removeEvent (s.handlers k).fd = s.setHandler k h₂ :=
    h.onFd_setHandler hk (show h₁.isOpen = true from hk) rfl _
  rw [e₁, e₂]
  exact h.onFd_setHandler hk (show h₂.isOpen = true from hk) rfl _

/-- `cancelTimer` disarms, removes and closes the timer, and throws. -/
theorem Numbered.cancelTimer_of_ne (h : s.Numbered) (hk : s.Live k)
    (hfd : (s.handlers k).timerfd ≠ 0) :
    s.cancelTimer k = (.bad_weak_ptr, s.setHandler k (s.handlers k).cancelled) := by
  have he := h.timerfd k hk
  rw [he] at hfd
  unfold cancelTimer
  simp only [he, if_neg hfd, h.close_eq hk, handlers_setHandler_self, setHandler_setHandler]
  exact if_neg (Bool.eq_false_iff.mp (h.weakThis k))

theorem cancelTimer_of_ne (h : s.Sound) (hfd : (s.handlers k).timerfd ≠ 0) :
    s.cancelTimer k = (.bad_weak_ptr, s.setHandler k (s.handlers k).cancelled) :=
  h.numbered.cancelTimer_of_ne (h.live k hfd) hfd

theorem cancelTimer_of_eq (hfd : (s.handlers k).timerfd = 0) :
    s.cancelTimer k = (.returned, s) := by
  unfold cancelTimer
  exact if_pos hfd

/-- A call of `cancelTimer` changes its handler only, and returns if there was nothing to do. -/
theorem cancelTimer_cases (h : s.Sound) :
    s.cancelTimer k = (.returned, s) ∨ (s.Live k ∧
      s.cancelTimer k = (.bad_weak_ptr, s.setHandler k (s.handlers k).cancelled)) := by
  by_cases hfd : (s.handlers k).timerfd = 0
  · exact Or.inl (cancelTimer_of_eq hfd)
  · exact Or.inr ⟨h.live k hfd, cancelTimer_of_ne h hfd⟩

/-- A live timer is closed. -/
theorem live_setHandler_closed {h' : TimerHandler} (ho : h'.isOpen = false) (j : ℕ) :
    (s.setHandler k h').Live j ↔ j ≠ k ∧ s.Live j := by
  unfold Live
  by_cases hj : j = k
  · subst hj
    simp [ho]
  · rw [handlers_setHandler_ne hj]
    exact (and_iff_right hj).symm

theorem Numbered.setHandler_closed (h : s.Numbered) (hk : s.Live k) {h' : TimerHandler}
    (ho : h'.isOpen = false) (hr : h'.registered = false) (hw : h'.weakThis = false) :
    (s.setHandler k h').Numbered := by
  have hlive := live_setHandler_closed (s := s) (k := k) ho
  have hne : ∀ j, j ≠ k → (s.setHandler k h').handlers j = s.handlers j :=
    fun j hj => handlers_setHandler_ne hj _
  refine ⟨fun j hj => ?_, fun j => ?_, fun i j hi hj he => ?_, fun j hj => ?_, fun j hj => ?_,
    h.active⟩
  · have hjk : j ≠ k := by
      rintro rfl
      exact Nat.not_lt.mpr hj (h.lt_created hk)
    rw [hne j hjk]
    exact h.unused j hj
  · by_cases hjk : j = k
    · rw [hjk, handlers_setHandler_self]
      exact hw
    · rw [hne j hjk]
      exact h.weakThis j
  · obtain ⟨hik, hi⟩ := (hlive i).mp hi
    obtain ⟨hjk, hj⟩ := (hlive j).mp hj
    rw [hne i hik, hne j hjk] at he
    exact h.unique i j hi hj he
  · obtain ⟨hjk, hj⟩ := (hlive j).mp hj
    rw [hne j hjk]
    exact h.timerfd j hj
  · by_cases hjk : j = k
    · rw [hjk, handlers_setHandler_self, hr] at hj
      cases hj
    · rw [hne j hjk] at hj
      exact (hlive j).mpr ⟨hjk, h.registered j hj⟩

theorem Sound.cancelled (h : s.Sound) (hk : s.Live k) :
    (s.setHandler k (s.handlers k).cancelled).Sound := by
  have hn : (s.setHandler k (s.handlers k).cancelled).Numbered :=
    h.numbered.setHandler_closed hk rfl rfl (h.weakThis k)
  refine hn.sound fun j hj => ?_
  by_cases hjk : j = k
  · rw [hjk, handlers_setHandler_self] at hj
    exact absurd rfl hj
  · rw [handlers_setHandler_ne hjk] at hj
    exact (live_setHandler_closed rfl j).mpr ⟨hjk, h.live j hj⟩

theorem Sound.cancelTimer (h : s.Sound) : (s.cancelTimer k).2.Sound := by
  rcases cancelTimer_cases (k := k) h with he | ⟨hk, he⟩
  · rw [he]
    exact h
  · rw [he]
    exact h.cancelled hk

/-- The destructor stops at the first handler that is not cancelled yet. -/
theorem cancelAll_cases (h : s.Sound) : ∀ order : List ℕ,
    ((∀ k ∈ order, (s.handlers k).timerfd = 0) ∧ s.cancelAll order = s) ∨
    ∃ k ∈ order, (s.handlers k).timerfd ≠ 0 ∧ s.cancelAll order =
      { s.setHandler k (s.handlers k).cancelled with terminated := true }
  | [] => Or.inl ⟨nofun, rfl⟩
  | k :: order => by
      by_cases hfd : (s.handlers k).timerfd = 0
      · have he : s.cancelAll (k :: order) = s.cancelAll order := by
          rw [cancelAll, cancelTimer_of_eq hfd]
        rw [he]
        rcases cancelAll_cases h order with ⟨hall, ho⟩ | ⟨j, hj, hne, ho⟩
        · exact Or.inl ⟨List.forall_mem_cons.mpr ⟨hfd, hall⟩, ho⟩
        · exact Or.inr ⟨j, List.mem_cons_of_mem _ hj, hne, ho⟩
      · refine Or.inr ⟨k, List.mem_cons_self, hfd, ?_⟩
        rw [cancelAll, cancelTimer_of_ne h hfd]

/-! ### The other calls -/

theorem handlers_addTask_self (timer : TimerId) (oneTask : Bool) (spec : Itimerspec) (fd : ℕ) :
    (s.addTask timer oneTask spec fd).handlers s.created = {
      timerfd := fd, timer, oneTask, fd := fd, registered := true, isOpen := true
      armed := spec.it_value ≠ ⟨0, 0⟩, repeats := spec.it_interval ≠ ⟨0, 0⟩ } :=
  Function.update_self ..

theorem handlers_addTask_ne (hk : k ≠ s.created) (timer : TimerId) (oneTask : Bool)
    (spec : Itimerspec) (fd : ℕ) :
    (s.addTask timer oneTask spec fd).handlers k = s.handlers k :=
  Function.update_of_ne hk ..

theorem live_addTask_of_ne (hk : k ≠ s.created) (timer : TimerId) (oneTask : Bool)
    (spec : Itimerspec) (fd : ℕ) : (s.addTask timer oneTask spec fd).Live k ↔ s.Live k := by
  unfold Live
  rw [handlers_addTask_ne hk]

theorem Numbered.addTask (h : s.Numbered) {timer : TimerId} {oneTask : Bool} {spec : Itimerspec}
    {fd : ℕ} (hfd : s.FreeFd fd) : (s.addTask timer oneTask spec fd).Numbered := by
  have hne : ∀ k, k ≠ s.created →
      (s.addTask timer oneTask spec fd).handlers k = s.handlers k :=
    fun k hk => handlers_addTask_ne hk ..
  have hlive : ∀ k, k ≠ s.created → (s.addTask timer oneTask spec fd).Live k → s.Live k :=
    fun k hk => (live_addTask_of_ne hk ..).mp
  have hnew : ∀ k, k ≠ s.created → (s.addTask timer oneTask spec fd).Live k →
      ((s.addTask timer oneTask spec fd).handlers k).fd ≠ fd := by
    intro k hk hl
    rw [hne k hk]
    exact hfd.2 k (hlive k hk hl)
  have hat := handlers_addTask_self (s := s) timer oneTask spec fd
  have hself : ((s.addTask timer oneTask spec fd).handlers s.created).fd = fd := by rw [hat]
  refine ⟨fun k hk => ?_, fun k => ?_, fun j k hj hk he => ?_, fun k hk => ?_, fun k hk => ?_,
    fun k hk => Nat.lt_succ_of_lt (h.active k hk)⟩
  · have hk' : s.created + 1 ≤ k := hk
    rw [hne k (by omega)]
    exact h.unused k (by omega)
  · by_cases hc : k = s.created
    · rw [hc, hat]
    · rw [hne k hc]
      exact h.weakThis k
  · by_cases hjc : j = s.created
    · by_cases hkc : k = s.created
      · rw [hjc, hkc]
      · rw [hjc, hself] at he
        exact absurd he.symm (hnew k hkc hk)
    · by_cases hkc : k = s.created
      · rw [hkc, hself] at he
        exact absurd he (hnew j hjc hj)
      · rw [hne j hjc, hne k hkc] at he
        exact h.unique j k (hlive j hjc hj) (hlive k hkc hk) he
  · by_cases hc : k = s.created
    · rw [hc, hat]
    · rw [hne k hc]
      exact h.timerfd k (hlive k hc hk)
  · by_cases hc : k = s.created
    · unfold Live
      rw [hc, hat]
    · rw [hne k hc] at hk
      exact (live_addTask_of_ne hc ..).mpr (h.registered k hk)

theorem Sound.addTask (h : s.Sound) {timer : TimerId} {oneTask : Bool} {spec : Itimerspec} {fd : ℕ}
    (hfd : s.LowestFree fd) : (s.addTask timer oneTask spec fd).Sound := by
  refine (h.numbered.addTask hfd.1).sound fun k hk => ?_
  by_cases hc : k = s.created
  · unfold Live
    rw [hc, handlers_addTask_self]
  · rw [handlers_addTask_ne hc] at hk
    exact (live_addTask_of_ne hc ..).mpr (h.live k hk)

theorem Sound.destroyTimer (h : s.Sound) (timer : TimerId) (order : List ℕ) :
    (s.destroyTimer timer order).Sound := by
  have hall : (s.cancelAll order).Sound := by
    rcases cancelAll_cases h order with ⟨-, he⟩ | ⟨k, -, hfd, he⟩
    · rw [he]
      exact h
    · rw [he]
      have hc := h.cancelled (h.live k hfd)
      exact ⟨hc.unused, hc.weakThis, hc.unique, hc.timerfd, hc.live, hc.registered, hc.active⟩
  exact ⟨hall.unused, hall.weakThis, hall.unique, hall.timerfd, hall.live, hall.registered,
    hall.active⟩

theorem steady_expire (hk : s.Live k) (j : ℕ) :
    Steady (s.handlers j) ((s.next (.expire k)).handlers j) := by
  show Steady _ ((s.setHandler k { s.handlers k with
    armed := (s.handlers k).repeats, readable := true }).handlers j)
  by_cases hj : j = k
  · rw [hj, handlers_setHandler_self]
    exact ⟨rfl, rfl, rfl, rfl, rfl, rfl, id, absurd_unused hk⟩
  · rw [handlers_setHandler_ne hj]
    exact .refl _

/-- The steps that add, cancel and destroy no timer. -/
def Act.Passes : Act → Prop
  | .addOneTask .. => False
  | .addTimedTask .. => False
  | .cancelTimer _ => False
  | .destroyTimer .. => False
  | _ => True

/-- What these steps do. -/
structure Passed (s t : TimerLoop) : Prop where
  created : t.created = s.created
  handlers : ∀ k, Steady (s.handlers k) (t.handlers k)
  timer_handler_queue : t.timer_handler_queue = s.timer_handler_queue
  destroyed : t.destroyed = s.destroyed
  active : ∀ k, k ∈ t.batch ∨ t.task = some k →
    (k ∈ s.batch ∨ s.task = some k) ∨ (s.handlers k).registered = true

theorem passed_next (hl : s.Legal a) (ha : a.Passes) : Passed s (s.next a) := by
  have hrefl : ∀ k, Steady (s.handlers k) (s.handlers k) := fun k => .refl _
  cases a with
  | addOneTask timer time fd => exact ha.elim
  | addTimedTask timer first interval fd => exact ha.elim
  | cancelTimer k => exact ha.elim
  | destroyTimer timer order => exact ha.elim
  | resetOneTask k time =>
      exact ⟨rfl, steady_timerfdSettime _ _, rfl, rfl, fun _ hk => Or.inl hk⟩
  | expire k => exact ⟨rfl, steady_expire hl.1, rfl, rfl, fun _ hk => Or.inl hk⟩
  | poll batch =>
      refine ⟨rfl, hrefl, rfl, rfl, fun k hk => ?_⟩
      rcases hk with hk | hk
      · exact Or.inr (hl.2.2.2 k hk).1
      · exact Or.inl (Or.inr hk)
  | handle =>
      unfold next
      dsimp only
      split
      · exact ⟨rfl, hrefl, rfl, rfl, fun _ hk => Or.inl hk⟩
      · rename_i k batch hb
        refine ⟨rfl, steady_readTimerfd (s.handlers k).fd, rfl, rfl, fun j hj => ?_⟩
        refine Or.inl (Or.inl ?_)
        rw [hb]
        rcases hj with hj | hj
        · exact List.mem_cons_of_mem _ hj
        · rw [Option.some.inj hj]
          exact List.mem_cons_self
  | taskReturns =>
      unfold next
      dsimp only
      split
      · exact ⟨rfl, hrefl, rfl, rfl, fun _ hk => Or.inl hk⟩
      · split_ifs
        · exact ⟨rfl, steady_removeEvent _, rfl, rfl, fun _ hk => Or.inl (hk.imp id nofun)⟩
        · exact ⟨rfl, hrefl, rfl, rfl, fun _ hk => Or.inl (hk.imp id nofun)⟩
  | openOther fd => exact ⟨rfl, hrefl, rfl, rfl, fun _ hk => Or.inl hk⟩
  | closeOther fd => exact ⟨rfl, hrefl, rfl, rfl, fun _ hk => Or.inl hk⟩

theorem Numbered.active_passed (h : s.Numbered) (hp : Passed s t) (k : ℕ)
    (hk : k ∈ t.batch ∨ t.task = some k) : k < s.created := by
  rcases hp.active k hk with hk | hk
  · exact h.active k hk
  · exact h.lt_created (h.registered k hk)

theorem Sound.passed (h : s.Sound) (hp : Passed s t) : t.Sound :=
  h.steady hp.created hp.handlers (h.numbered.active_passed hp)

theorem sound_step (h : s.Sound) (hs : system.Step s a t) : t.Sound := by
  obtain ⟨-, hl, rfl⟩ := hs
  cases a with
  | addOneTask timer time fd => exact h.addTask hl.2
  | addTimedTask timer first interval fd => exact h.addTask hl.2
  | cancelTimer k => exact h.cancelTimer
  | destroyTimer timer order => exact h.destroyTimer timer order
  | _ => exact h.passed (passed_next hl trivial)

theorem sound_of_reachable (h : Reachable system s) : s.Sound := by
  refine h.invariant ?_ (fun _ _ _ => sound_step)
  rintro _ ⟨others, rfl⟩
  exact ⟨fun _ _ => rfl, fun _ => rfl, nofun, nofun, nofun, nofun, fun _ hk => hk.elim nofun nofun⟩

/-! ### The map of a `Timer` -/

/-- `cancelTimer` is called on no live handler, neither by user code nor by a destructor. -/
def SparesLive (s : TimerLoop) : Act → Prop
  | .cancelTimer handler => ¬ s.Live handler
  | .destroyTimer timer _ => ∀ e ∈ s.timer_handler_queue timer, ¬ s.Live e.2
  | _ => True

structure Registered (s : TimerLoop) : Prop where
  live : ∀ k < s.created, s.Live k
  entry : ∀ k < s.created,
    ((s.handlers k).fd, k) ∈ s.timer_handler_queue (s.handlers k).timer
  owner : ∀ timer, ∀ e ∈ s.timer_handler_queue timer,
    e.2 < s.created ∧ (s.handlers e.2).timer = timer ∧ (s.handlers e.2).fd = e.1

theorem Registered.steady (h : s.Registered) (hc : t.created = s.created)
    (hq : t.timer_handler_queue = s.timer_handler_queue)
    (hs : ∀ k, Steady (s.handlers k) (t.handlers k)) : t.Registered := by
  refine ⟨fun k hk => ?_, fun k hk => ?_, fun timer e he => ?_⟩
  · unfold Live
    rw [(hs k).isOpen]
    exact h.live k (hc ▸ hk)
  · rw [hq, (hs k).fd, (hs k).timer]
    exact h.entry k (hc ▸ hk)
  · rw [hq] at he
    rw [hc, (hs e.2).timer, (hs e.2).fd]
    exact h.owner timer e he

theorem Registered.passed (h : s.Registered) (hp : Passed s t) : t.Registered :=
  h.steady hp.created hp.timer_handler_queue hp.handlers

/-- As long as all timers are live, the number of a new one is not in the map. -/
theorem Registered.addTask (h : s.Registered) {timer : TimerId} {oneTask : Bool}
    {spec : Itimerspec} {fd : ℕ} (hfd : s.LowestFree fd) :
    (s.addTask timer oneTask spec fd).Registered := by
  have hadd : (s.timer_handler_queue timer).add fd s.created =
      (fd, s.created) :: s.timer_handler_queue timer := by
    refine ConcurrentMap.add_eq fun e he heq => ?_
    obtain ⟨hlt, -, hk⟩ := h.owner timer e he
    exact hfd.1.2 e.2 (h.live e.2 hlt) (hk.trans heq)
  have hne : ∀ k, k ≠ s.created →
      (s.addTask timer oneTask spec fd).handlers k = s.handlers k :=
    fun k hk => handlers_addTask_ne hk ..
  have hat := handlers_addTask_self (s := s) timer oneTask spec fd
  have hq : ∀ timer', (s.addTask timer oneTask spec fd).timer_handler_queue timer' =
      if timer' = timer then (fd, s.created) :: s.timer_handler_queue timer
      else s.timer_handler_queue timer' := by
    intro timer'
    unfold TimerLoop.addTask
    rw [hadd]
    exact Function.update_apply ..
  refine ⟨fun k hk => ?_, fun k hk => ?_, fun timer' e he => ?_⟩
  · unfold Live
    by_cases hc : k = s.created
    · rw [hc, hat]
    · rw [hne k hc]
      exact h.live k (by have : k < s.created + 1 := hk; omega)
  · by_cases hc : k = s.created
    · rw [hc, hat, hq, if_pos rfl]
      exact List.mem_cons_self
    · rw [hne k hc, hq]
      have hentry := h.entry k (by have : k < s.created + 1 := hk; omega)
      split_ifs with htimer
      · rw [htimer] at hentry
        exact List.mem_cons_of_mem _ hentry
      · exact hentry
  · have hold : ∀ e ∈ s.timer_handler_queue timer', e.2 < s.created + 1 ∧
        ((s.addTask timer oneTask spec fd).handlers e.2).timer = timer' ∧
        ((s.addTask timer oneTask spec fd).handlers e.2).fd = e.1 := by
      intro e he
      obtain ⟨hlt, howner⟩ := h.owner timer' e he
      rw [hne e.2 (Nat.ne_of_lt hlt)]
      exact ⟨Nat.lt_succ_of_lt hlt, howner⟩
    rw [hq] at he
    split_ifs at he with htimer
    · subst htimer
      rcases List.mem_cons.mp he with rfl | he
      · dsimp only
        rw [hat]
        exact ⟨Nat.lt_succ_self _, rfl, rfl⟩
      · exact hold e he
    · exact hold e he

/-- A `Timer` without live handlers is one without timers. -/
theorem Registered.destroyTimer (h : s.Registered) {timer : TimerId} {order : List ℕ}
    (hperm : order.Perm ((s.timer_handler_queue timer).map Prod.snd))
    (hdead : ∀ e ∈ s.timer_handler_queue timer, ¬ s.Live e.2) :
    (s.destroyTimer timer order).Registered := by
  have hnil : s.timer_handler_queue timer = [] := by
    refine List.eq_nil_iff_forall_not_mem.mpr fun e he => ?_
    exact hdead e he (h.live e.2 (h.owner timer e he).1)
  rw [hnil] at hperm
  obtain rfl := List.perm_nil.mp hperm
  have hq : Function.update s.timer_handler_queue timer [] = s.timer_handler_queue := by
    rw [← hnil, Function.update_eq_self]
  refine h.steady rfl ?_ (fun k => .refl _)
  exact hq

theorem registered_step (h : s.Registered)
    (hs : (system.guarded SparesLive).Step s a t) : t.Registered := by
  obtain ⟨⟨-, hl, rfl⟩, hguard⟩ := hs
  cases a with
  | addOneTask timer time fd => exact h.addTask hl.2
  | addTimedTask timer first interval fd => exact h.addTask hl.2
  | cancelTimer k => exact absurd (h.live k hl) hguard
  | destroyTimer timer order => exact h.destroyTimer hl.2 hguard
  | _ => exact h.passed (passed_next hl trivial)

theorem registered_of_reachable (h : Reachable (system.guarded SparesLive) s) : s.Registered := by
  refine h.invariant ?_ (fun _ _ _ => registered_step)
  rintro _ ⟨others, rfl⟩
  exact ⟨nofun, nofun, nofun⟩

/-- `cancelTimer` returns, and takes the entry of its handler, and no other, out of the map. -/
def CancelWorks (s : TimerLoop) (handler : ℕ) : Prop :=
  let h := s.handlers handler
  (s.cancelTimer handler).1 = .returned ∧ (h.fd, handler) ∈ s.timer_handler_queue h.timer ∧
    (s.cancelTimer handler).2.timer_handler_queue h.timer =
      (s.timer_handler_queue h.timer).filter fun e => e.2 != handler

/-- The destructor returns with all timers of the map cancelled. -/
def Disarms (s : TimerLoop) (timer : TimerId) (order : List ℕ) : Prop :=
  (s.destroyTimer timer order).terminated = false ∧
    ∀ e ∈ s.timer_handler_queue timer, ¬ (s.destroyTimer timer order).Live e.2

/-- `cancelTimer` throws, unless the handler's descriptor is 0: then it does nothing. -/
theorem not_cancelWorks (h : s.Sound) : ¬ s.CancelWorks k := by
  rintro ⟨hret, hmem, hq⟩
  by_cases hfd : (s.handlers k).timerfd = 0
  · rw [cancelTimer_of_eq hfd] at hq
    rw [hq] at hmem
    simp at hmem
  · rw [cancelTimer_of_ne h hfd] at hret
    cases hret

theorem not_disarms (h : s.Sound) {timer : TimerId} {order : List ℕ}
    (hlive : ∃ e ∈ s.timer_handler_queue timer, s.Live e.2) : ¬ s.Disarms timer order := by
  obtain ⟨e, he, hl⟩ := hlive
  rintro ⟨hret, hall⟩
  rcases cancelAll_cases h order with ⟨-, ho⟩ | ⟨k, -, -, ho⟩
  · refine hall e he ?_
    unfold destroyTimer
    rw [ho]
    exact hl
  · unfold destroyTimer at hret
    rw [ho] at hret
    cases hret

/-- **The registry of timers**: in every run in which `cancelTimer` is called on no live handler,
every timer that is not cancelled has its handler in the map under its own descriptor.  In any
run, cancelling a live handler does not work, and a destructor that meets one does not disarm
the timers. -/
theorem timers_registered (s : TimerLoop) :
    (Reachable (system.guarded SparesLive) s → ∀ k < s.created, s.Live k →
      ((s.handlers k).timerfd, k) ∈ s.timer_handler_queue (s.handlers k).timer) ∧
    (Reachable system s → (∀ k, s.Live k → ¬ s.CancelWorks k) ∧
      ∀ timer order, (∃ e ∈ s.timer_handler_queue timer, s.Live e.2) →
        ¬ s.Disarms timer order) := by
  constructor
  · intro h k hk hl
    rw [(sound_of_reachable h.of_guarded).timerfd k hl]
    exact (registered_of_reachable h).entry k hk
  · intro h
    have hsound := sound_of_reachable h
    exact ⟨fun _ _ => not_cancelWorks hsound, fun _ _ => not_disarms hsound⟩

/-- A process with the three standard descriptors open. -/
def standard : TimerLoop := { others := [0, 1, 2] }

theorem lowestFree_three (ho : s.others = [0, 1, 2])
    (hl : ∀ k, s.Live k → (s.handlers k).fd ≠ 3) : s.LowestFree 3 := by
  refine ⟨⟨by rw [ho]; decide, hl⟩, fun m hm hfree => hfree.1 ?_⟩
  rw [ho]
  simp only [List.mem_cons, List.not_mem_nil, or_false]
  omega

/-- One timer. -/
theorem timers_registered_oneTask :
    let s := standard.addOneTask 0 100 3
    ((s.handlers 0).timerfd, 0) ∈ s.timer_handler_queue (s.handlers 0).timer ∧
      ¬ s.CancelWorks 0 ∧ ¬ s.Disarms 0 [0] := by
  intro s
  have h : Reachable (system.guarded SparesLive) s :=
    .step (a := .addOneTask 0 100 3) (.init ⟨[0, 1, 2], rfl⟩)
      ⟨⟨rfl, ⟨rfl, lowestFree_three rfl nofun⟩, rfl⟩, trivial⟩
  obtain ⟨hcancel, hdestroy⟩ := (timers_registered s).2 h.of_guarded
  exact ⟨(timers_registered s).1 h 0 (by decide) rfl, hcancel 0 rfl,
    hdestroy 0 [0] ⟨(3, 0), List.mem_cons_self, rfl⟩⟩

/-- A timer is cancelled, and the next one gets its descriptor. -/
def cancelThenAdd : List Act := [.addOneTask 0 100 3, .cancelTimer 0, .addTimedTask 0 50 50 3]

/-- In this run `cancelTimer` throws, and the timer that is armed at the end is not in the map. -/
theorem timer_unregistered : (standard.addOneTask 0 100 3 |>.cancelTimer 0).1 = .bad_weak_ptr ∧
    ∃ s, Path system standard cancelThenAdd s ∧ s.Live 1 ∧ (s.handlers 1).armed = true ∧
      s.timer_handler_queue 0 = [(3, 0)] := by
  have hfree : standard.LowestFree 3 := lowestFree_three rfl nofun
  have h0 : Reachable system standard := .init ⟨[0, 1, 2], rfl⟩
  have h1 : system.Step standard (.addOneTask 0 100 3) (standard.addOneTask 0 100 3) :=
    ⟨rfl, ⟨rfl, hfree⟩, rfl⟩
  have he := cancelTimer_of_ne (k := 0) (sound_of_reachable (h0.step h1)) (by decide)
  let s₂ := ((standard.addOneTask 0 100 3).cancelTimer 0).2
  have h2 : system.Step (standard.addOneTask 0 100 3) (.cancelTimer 0) s₂ :=
    ⟨rfl, Nat.zero_lt_one, rfl⟩
  have hs₂ : s₂ = (standard.addOneTask 0 100 3).setHandler 0
      ((standard.addOneTask 0 100 3).handlers 0).cancelled := congrArg Prod.snd he
  have hdead : ∀ k, ¬ s₂.Live k := by
    intro k hk
    rw [hs₂] at hk
    rcases Nat.eq_zero_or_pos k with rfl | hpos
    · cases hk
    · unfold Live at hk
      rw [handlers_setHandler_ne (Nat.ne_of_gt hpos)] at hk
      have hd : (standard.addOneTask 0 100 3).handlers k = {} :=
        Function.update_of_ne (Nat.ne_of_gt hpos) ..
      rw [hd] at hk
      cases hk
  have h3 : system.Step s₂ (.addTimedTask 0 50 50 3) (s₂.addTimedTask 0 50 50 3) := by
    refine ⟨rfl, ⟨rfl, lowestFree_three rfl fun k hk => absurd hk (hdead k)⟩, rfl⟩
  exact ⟨congrArg Prod.fst he, _, .cons h1 (.cons h2 (.cons h3 (.nil _))), rfl, by decide, rfl⟩

end TimerLoop

end Dagger
