import Dagger.TimerRegistry

/-! # Copies of a handler

`TcpServer::cancelTimer` takes its handler by value.  The copy closes the timerfd, sets its own
`timerfd_` to 0 and throws; the stored handler keeps the number, and a later call through it
disarms, removes and closes whatever has that number by then.  The read callback of a one-shot
timer keeps the number too, and removes its event after the task whatever the task did.

A log records the calls of a run that name the descriptor of a timer.  `closedOnce_iff` says which
steps keep it in order. -/

namespace Dagger

inductive FdOp where
  | timerfd_settime
  | removeEvent
  | close
deriving DecidableEq, Repr

/-- A call, the handler it was made for, and the number it names. -/
structure FdCall where
  op : FdOp
  handler : ℕ
  fd : ℕ
deriving DecidableEq, Repr

/-- The second call names the number that the first has closed for the same timer. -/
def FdCall.Stale (c c' : FdCall) : Prop :=
  c.op = .close ∧ c'.handler = c.handler ∧ c'.fd = c.fd

/-- How often the descriptor of a timer was closed. -/
def closes (log : List FdCall) (handler : ℕ) : ℕ :=
  log.countP fun c => c.op = .close ∧ c.handler = handler

namespace TimerLoop

open Transition

/-- The calls of user code, and `TcpServer::cancelTimer(TimerHandler handler)`. -/
inductive ServerAct where
  | loop (a : Act)
  | cancelCopy (handler : ℕ)

section calls

variable (s : TimerLoop)

/-- `handler.cancelTimer()` on a copy, which no `shared_ptr` owns. -/
def cancelCopy (handler : ℕ) : CancelResult × TimerLoop :=
  let h := s.handlers handler
  if h.timerfd = 0 then (.returned, s)
  else
    let s := s.timerfdSettime h.timerfd .zero
    let s := s.removeEvent h.fd
    let s := s.close h.timerfd
    -- `shared_from_this()`
    (.bad_weak_ptr, s)

def cancelCalls (handler : ℕ) : List FdCall :=
  let h := s.handlers handler
  if h.timerfd = 0 then []
  else [⟨.timerfd_settime, handler, h.timerfd⟩, ⟨.removeEvent, handler, h.fd⟩,
    ⟨.close, handler, h.timerfd⟩]

/-- The calls of `cancelAll`. -/
def cancelAllCalls : List ℕ → TimerLoop → List FdCall
  | [], _ => []
  | handler :: order, s =>
      match s.cancelTimer handler with
      | (.returned, t) => s.cancelCalls handler ++ cancelAllCalls order t
      | (.bad_weak_ptr, _) => s.cancelCalls handler

def calls : ServerAct → List FdCall
  | .loop (.addOneTask _ _ timerfd) => [⟨.timerfd_settime, s.created, timerfd⟩]
  | .loop (.addTimedTask _ _ _ timerfd) => [⟨.timerfd_settime, s.created, timerfd⟩]
  | .loop (.cancelTimer handler) => s.cancelCalls handler
  | .loop (.resetOneTask handler _) =>
      [⟨.timerfd_settime, handler, (s.handlers handler).timerfd⟩]
  | .loop (.destroyTimer _ order) => cancelAllCalls order s
  | .loop .taskReturns =>
      match s.task with
      | none => []
      | some k => if (s.handlers k).oneTask then [⟨.removeEvent, k, (s.handlers k).fd⟩] else []
  | .loop _ => []
  | .cancelCopy handler => s.cancelCalls handler

/-- The descriptors that belong to no timer are closed by the same calls. -/
def released (cs : List FdCall) : TimerLoop :=
  { s with others := s.others.filter fun fd => ∀ c ∈ cs, c.op = .close → c.fd ≠ fd }

def serverNext : ServerAct → TimerLoop
  | .loop a => (s.next a).released (s.calls (.loop a))
  | .cancelCopy handler => (s.cancelCopy handler).2.released (s.calls (.cancelCopy handler))

def ServerLegal : ServerAct → Prop
  | .loop a => s.Legal a
  | .cancelCopy handler => handler < s.created

end calls

/-- The runs of a loop and its server, with the log of the calls. -/
def recorded : System (TimerLoop × List FdCall) ServerAct where
  Init p := ∃ others, p = ({ others }, [])
  Step p a q := p.1.terminated = false ∧ p.1.ServerLegal a ∧
    q = (p.1.serverNext a, p.2 ++ p.1.calls a)

/-- No call names the number of a timer after its `close`. -/
def Ordered (log : List FdCall) : Prop := log.Pairwise fun c c' => ¬ c.Stale c'

/-- No descriptor is used after its `close`, and those of a `Timer` that is gone are closed, once
each. -/
structure ClosedOnce (p : TimerLoop × List FdCall) : Prop where
  ordered : Ordered p.2
  once : ∀ k < p.1.created, p.1.destroyed (p.1.handlers k).timer = true → closes p.2 k = 1

/-- The first handler that the destructor cancels. -/
def firstOf (s : TimerLoop) (order : List ℕ) : Option ℕ :=
  order.find? fun k => (s.handlers k).timerfd ≠ 0

/-- No handler is used whose timer was closed through another copy, no callback of a one-shot timer
ends after its timer was closed, and a destructor finds at most one open timer, which it meets
first. -/
def UsesOpen (s : TimerLoop) : ServerAct → Prop
  | .loop (.cancelTimer handler) => (s.handlers handler).timerfd ≠ 0 → s.Live handler
  | .loop (.resetOneTask handler _) => (s.handlers handler).timerfd ≠ 0 → s.Live handler
  | .loop (.destroyTimer timer order) => (∀ k, s.firstOf order = some k → s.Live k) ∧
      ∀ k < s.created, s.Live k → (s.handlers k).timer = timer → s.firstOf order = some k
  | .loop .taskReturns => ∀ k, s.task = some k → (s.handlers k).oneTask = true → s.Live k
  | .loop _ => True
  | .cancelCopy handler => (s.handlers handler).timerfd ≠ 0 → s.Live handler

/-! ### What the log says of the timers -/

variable {s t : TimerLoop} {a : ServerAct} {k : ℕ} {log cs : List FdCall}

structure Accounted (p : TimerLoop × List FdCall) : Prop where
  numbered : p.1.Numbered
  timerfd : ∀ k, (p.1.handlers k).timerfd ≠ 0 → (p.1.handlers k).timerfd = (p.1.handlers k).fd
  created : ∀ c ∈ p.2, c.handler < p.1.created
  number : ∀ c ∈ p.2, c.op = .close → c.fd = (p.1.handlers c.handler).fd ∧ c.fd ≠ 0
  count : ∀ k < p.1.created, closes p.2 k = if p.1.Live k then 0 else 1
  ordered : Ordered p.2
  destroyed : ∀ k < p.1.created, p.1.destroyed (p.1.handlers k).timer = true → ¬ p.1.Live k

theorem Accounted.closedOnce {p : TimerLoop × List FdCall} (h : Accounted p) : ClosedOnce p := by
  refine ⟨h.ordered, fun k hk hd => ?_⟩
  rw [h.count k hk, if_neg (h.destroyed k hk hd)]

theorem Accounted.released (h : Accounted (s, log)) (cs : List FdCall) :
    Accounted (s.released cs, log) := by
  have hn := h.numbered
  exact ⟨⟨hn.unused, hn.weakThis, hn.unique, hn.timerfd, hn.registered, hn.active⟩, h.timerfd,
    h.created, h.number, h.count, h.ordered, h.destroyed⟩

theorem closes_append (log cs : List FdCall) (k : ℕ) :
    closes (log ++ cs) k = closes log k + closes cs k := List.countP_append

theorem closes_eq_zero (h : ∀ c ∈ cs, c.op = .close → c.handler ≠ k) : closes cs k = 0 := by
  unfold closes
  rw [List.countP_eq_zero]
  intro c hc
  simpa using h c hc

theorem closes_pos {c : FdCall} (hc : c ∈ log) (ho : c.op = .close) : 0 < closes log c.handler := by
  unfold closes
  rw [List.countP_pos_iff]
  exact ⟨c, hc, by simpa using ho⟩

theorem exists_close (h : 0 < closes log k) : ∃ c ∈ log, c.op = .close ∧ c.handler = k := by
  unfold closes at h
  rw [List.countP_pos_iff] at h
  obtain ⟨c, hc, he⟩ := h
  exact ⟨c, hc, by simpa using he⟩

/-- The timer of a `close` is not live any more. -/
theorem Accounted.not_live {p : TimerLoop × List FdCall} (h : Accounted p) {c : FdCall}
    (hc : c ∈ p.2) (ho : c.op = .close) : ¬ p.1.Live c.handler := by
  intro hl
  have hpos := closes_pos hc ho
  rw [h.count _ (h.created c hc), if_pos hl] at hpos
  exact Nat.not_lt_zero 0 hpos

/-- Calls for new and for live timers, and calls that name no timer's descriptor. -/
theorem Accounted.ordered_append {p : TimerLoop × List FdCall} (h : Accounted p)
    (hcs : Ordered cs)
    (hnew : ∀ c ∈ cs, c.handler = p.1.created ∨ p.1.Live c.handler ∨ c.fd = 0) :
    Ordered (p.2 ++ cs) := by
  refine List.pairwise_append.mpr ⟨h.ordered, hcs, ?_⟩
  rintro c hc c' hc' ⟨ho, hhandler, hfd⟩
  rcases hnew c' hc' with hcreated | hl | hzero
  · have hlt := h.created c hc
    omega
  · rw [hhandler] at hl
    exact h.not_live hc ho hl
  · exact (h.number c hc ho).2 (hfd.symm.trans hzero)

/-- A call for a timer that is closed already names its descriptor. -/
theorem Accounted.not_ordered_append {p : TimerLoop × List FdCall} (h : Accounted p)
    (hk : k < p.1.created) (hdead : ¬ p.1.Live k) {c : FdCall} (hc : c ∈ cs)
    (hhandler : c.handler = k) (hfd : c.fd = (p.1.handlers k).fd) : ¬ Ordered (p.2 ++ cs) := by
  have hcloses := h.count k hk
  rw [if_neg hdead] at hcloses
  have hpos : 0 < closes p.2 k := by omega
  obtain ⟨c₀, hc₀, ho, hk₀⟩ := exists_close hpos
  intro hordered
  refine (List.pairwise_append.mp hordered).2.2 c₀ hc₀ c hc ⟨ho, hhandler.trans hk₀.symm, ?_⟩
  rw [hfd, (h.number c₀ hc₀ ho).1, hk₀]

theorem ordered_of_forall (h : ∀ c ∈ cs, c.op ≠ .close) : Ordered cs :=
  List.pairwise_of_forall_mem_list fun c hc _ _ hstale => h c hc hstale.1

/-! ### What the steps keep -/

/-- The steps that close nothing, with calls for live timers or for no timer's descriptor. -/
theorem Accounted.passed (h : Accounted (s, log)) (hp : Passed s t)
    (hop : ∀ c ∈ cs, c.op ≠ .close) (hlt : ∀ c ∈ cs, c.handler < s.created)
    (hnew : ∀ c ∈ cs, s.Live c.handler ∨ c.fd = 0) : Accounted (t, log ++ cs) := by
  have hs := hp.handlers
  have hc := hp.created
  have hlive := live_iff_of_steady hs
  refine ⟨h.numbered.steady hc hs (h.numbered.active_passed hp), fun k hk => ?_, fun c hin => ?_,
    fun c hin ho => ?_, fun k hk => ?_, ?_, fun k hk hdead => ?_⟩
  · dsimp only at hk ⊢
    rw [(hs k).timerfd] at hk
    rw [(hs k).timerfd, (hs k).fd]
    exact h.timerfd k hk
  · show c.handler < t.created
    rw [hc]
    exact (List.mem_append.mp hin).elim (h.created c) (hlt c)
  · show c.fd = (t.handlers c.handler).fd ∧ _
    rw [(hs c.handler).fd]
    rcases List.mem_append.mp hin with hin | hin
    · exact h.number c hin ho
    · exact absurd ho (hop c hin)
  · show closes (log ++ cs) k = if t.Live k then 0 else 1
    have hk' : k < s.created := hc ▸ hk
    have hcs : closes cs k = 0 := closes_eq_zero fun c hin ho => absurd ho (hop c hin)
    rw [closes_append, hcs, h.count k hk', Nat.add_zero]
    exact if_congr (hlive k).symm rfl rfl
  · exact h.ordered_append (ordered_of_forall hop) fun c hin => Or.inr (hnew c hin)
  · dsimp only at hk hdead ⊢
    rw [hp.destroyed, (hs k).timer] at hdead
    rw [hlive k]
    exact h.destroyed k (hc ▸ hk) hdead

theorem Accounted.addTask (h : Accounted (s, log)) {timer : TimerId} {oneTask : Bool}
    {spec : Itimerspec} {fd : ℕ} (hfd : s.FreeFd fd) (hd : s.destroyed timer = false) :
    Accounted (s.addTask timer oneTask spec fd, log ++ [⟨.timerfd_settime, s.created, fd⟩]) := by
  have hat := handlers_addTask_self (s := s) timer oneTask spec fd
  have hne : ∀ k, k ≠ s.created →
      (s.addTask timer oneTask spec fd).handlers k = s.handlers k :=
    fun k hk => handlers_addTask_ne hk ..
  have hlt : ∀ c ∈ log, c.handler < s.created := h.created
  refine ⟨h.numbered.addTask hfd, fun k hk => ?_, fun c hin => ?_, fun c hin ho => ?_,
    fun k hk => ?_, ?_, fun k hk hdead => ?_⟩
  · dsimp only at hk ⊢
    by_cases hc : k = s.created
    · rw [hc, hat]
    · rw [hne k hc] at hk ⊢
      exact h.timerfd k hk
  · rcases List.mem_append.mp hin with hin | hin
    · exact Nat.lt_succ_of_lt (hlt c hin)
    · obtain rfl := List.mem_singleton.mp hin
      exact Nat.lt_succ_self _
  · rcases List.mem_append.mp hin with hin | hin
    · dsimp only
      rw [hne _ (Nat.ne_of_lt (hlt c hin))]
      exact h.number c hin ho
    · obtain rfl := List.mem_singleton.mp hin
      cases ho
  · have hk' : k < s.created + 1 := hk
    have hcs : closes [⟨.timerfd_settime, s.created, fd⟩] k = 0 := rfl
    show closes (log ++ _) k = if (s.addTask timer oneTask spec fd).Live k then 0 else 1
    rw [closes_append, hcs, Nat.add_zero]
    by_cases hc : k = s.created
    · have hl : (s.addTask timer oneTask spec fd).Live k := by
        unfold Live
        rw [hc, hat]
      rw [if_pos hl]
      refine closes_eq_zero fun c hin _ heq => ?_
      have hlt' := hlt c hin
      omega
    · have hlt' : k < s.created := by omega
      rw [h.count k hlt']
      exact if_congr (live_addTask_of_ne hc ..).symm rfl rfl
  · refine h.ordered_append (List.pairwise_singleton _ _) fun c hin => Or.inl ?_
    rw [List.mem_singleton.mp hin]
  · have hk' : k < s.created + 1 := hk
    dsimp only at hdead ⊢
    by_cases hc : k = s.created
    · rw [hc, hat] at hdead
      have hdead' : s.destroyed timer = true := hdead
      rw [hd] at hdead'
      cases hdead'
    · rw [hne k hc] at hdead
      rw [live_addTask_of_ne hc]
      have hlt' : k < s.created := by omega
      exact h.destroyed k hlt' hdead

theorem cancelCalls_of_ne (hfd : (s.handlers k).timerfd ≠ 0) : s.cancelCalls k =
    [⟨.timerfd_settime, k, (s.handlers k).timerfd⟩, ⟨.removeEvent, k, (s.handlers k).fd⟩,
      ⟨.close, k, (s.handlers k).timerfd⟩] := if_neg hfd

theorem cancelCalls_of_eq (hfd : (s.handlers k).timerfd = 0) : s.cancelCalls k = [] := if_pos hfd

theorem handler_of_mem_cancelCalls {c : FdCall} (hc : c ∈ s.cancelCalls k) : c.handler = k := by
  unfold cancelCalls at hc
  dsimp only at hc
  split_ifs at hc with hfd
  · cases hc
  · simp only [List.mem_cons, List.not_mem_nil, or_false] at hc
    rcases hc with rfl | rfl | rfl <;> rfl

/-- A live timer is closed, through its handler or through a copy. -/
theorem Accounted.closed (h : Accounted (s, log)) (hk : s.Live k)
    (hfd : (s.handlers k).timerfd ≠ 0) {h' : TimerHandler} (ho : h'.isOpen = false)
    (hr : h'.registered = false) (hw : h'.weakThis = false) (hf : h'.fd = (s.handlers k).fd)
    (htfd : h'.timerfd ≠ 0 → h'.timerfd = h'.fd) :
    Accounted (s.setHandler k h', log ++ s.cancelCalls k) := by
  have hlive := live_setHandler_closed (s := s) (k := k) ho
  have hcreated : k < s.created := h.numbered.lt_created hk
  have hfds : ∀ j, ((s.setHandler k h').handlers j).fd = (s.handlers j).fd := by
    intro j
    by_cases hjk : j = k
    · rw [hjk, handlers_setHandler_self, hf]
    · rw [handlers_setHandler_ne hjk]
  have hcs := cancelCalls_of_ne hfd
  refine ⟨h.numbered.setHandler_closed hk ho hr hw, fun j hj => ?_, fun c hin => ?_,
    fun c hin hop => ?_, fun j hj => ?_, ?_, fun j hj hdead => ?_⟩
  · dsimp only at hj ⊢
    by_cases hjk : j = k
    · rw [hjk, handlers_setHandler_self] at hj ⊢
      exact htfd hj
    · rw [handlers_setHandler_ne hjk] at hj ⊢
      exact h.timerfd j hj
  · rcases List.mem_append.mp hin with hin | hin
    · exact h.created c hin
    · rw [handler_of_mem_cancelCalls hin]
      exact hcreated
  · show c.fd = ((s.setHandler k h').handlers c.handler).fd ∧ _
    rw [hfds]
    rcases List.mem_append.mp hin with hin | hin
    · exact h.number c hin hop
    · rw [hcs] at hin
      simp only [List.mem_cons, List.not_mem_nil, or_false] at hin
      rcases hin with rfl | rfl | rfl
      · cases hop
      · cases hop
      · exact ⟨h.numbered.timerfd k hk, hfd⟩
  · show closes (log ++ s.cancelCalls k) j = if (s.setHandler k h').Live j then 0 else 1
    rw [closes_append, h.count j hj]
    by_cases hjk : j = k
    · have hone : closes (s.cancelCalls k) j = 1 := by
        rw [hcs, hjk]
        simp [closes]
      have hdead : ¬ (s.setHandler k h').Live j := fun hl => ((hlive j).mp hl).1 hjk
      rw [hone, if_neg hdead, hjk]
      exact congrArg (· + 1) (if_pos hk)
    · have hzero : closes (s.cancelCalls k) j = 0 := by
        refine closes_eq_zero fun c hin _ heq => hjk ?_
        rw [← heq, handler_of_mem_cancelCalls hin]
      rw [hzero, Nat.add_zero]
      exact if_congr ((hlive j).trans (and_iff_right hjk)).symm rfl rfl
  · refine h.ordered_append ?_ fun c hin => Or.inr (Or.inl ?_)
    · rw [hcs]
      simp [Ordered, FdCall.Stale]
    · rw [handler_of_mem_cancelCalls hin]
      exact hk
  · dsimp only at hj hdead ⊢
    rw [hlive j]
    rintro ⟨hjk, hl⟩
    rw [handlers_setHandler_ne hjk] at hdead
    exact h.destroyed j hj hdead hl

/-! ### `cancelTimer` and the destructor -/

theorem Accounted.cancelTimer (h : Accounted (s, log))
    (hopen : (s.handlers k).timerfd ≠ 0 → s.Live k) :
    Accounted ((s.cancelTimer k).2, log ++ s.cancelCalls k) := by
  by_cases hfd : (s.handlers k).timerfd = 0
  · rw [cancelTimer_of_eq hfd, cancelCalls_of_eq hfd, List.append_nil]
    exact h
  · have hk := hopen hfd
    rw [h.numbered.cancelTimer_of_ne hk hfd]
    exact h.closed hk hfd rfl rfl (h.numbered.weakThis k) rfl fun hne => absurd rfl hne

/-- The handler that is stored keeps the number. -/
theorem Numbered.cancelCopy_of_ne (h : s.Numbered) (hk : s.Live k)
    (hfd : (s.handlers k).timerfd ≠ 0) : s.cancelCopy k = (.bad_weak_ptr, s.setHandler k
      { (s.handlers k).cancelled with timerfd := (s.handlers k).timerfd }) := by
  have he := h.timerfd k hk
  unfold cancelCopy
  dsimp only
  rw [if_neg hfd]
  conv_lhs => rw [he, h.close_eq hk]
  rfl

theorem Accounted.cancelCopy (h : Accounted (s, log))
    (hopen : (s.handlers k).timerfd ≠ 0 → s.Live k) :
    Accounted ((s.cancelCopy k).2, log ++ s.cancelCalls k) := by
  by_cases hfd : (s.handlers k).timerfd = 0
  · have he : s.cancelCopy k = (.returned, s) := if_pos hfd
    rw [he, cancelCalls_of_eq hfd, List.append_nil]
    exact h
  · have hk := hopen hfd
    rw [h.numbered.cancelCopy_of_ne hk hfd]
    exact h.closed hk hfd rfl rfl (h.numbered.weakThis k) rfl fun _ => h.numbered.timerfd k hk

theorem weakThis_close (fd k : ℕ) :
    ((s.close fd).handlers k).weakThis = (s.handlers k).weakThis := by
  unfold close onFd
  dsimp only
  split_ifs <;> rfl

/-- `cancelTimer` throws, also where the number is not that of its timer any more. -/
theorem cancelTimer_fst (h : s.Numbered) (hfd : (s.handlers k).timerfd ≠ 0) :
    (s.cancelTimer k).1 = .bad_weak_ptr := by
  have hw : ((((s.timerfdSettime (s.handlers k).timerfd .zero).removeEvent
      (s.handlers k).fd).close (s.handlers k).timerfd).handlers k).weakThis = false := by
    rw [weakThis_close, (steady_removeEvent _ k).weakThis, (steady_timerfdSettime _ _ k).weakThis]
    exact h.weakThis k
  unfold TimerLoop.cancelTimer
  simp only [if_neg hfd, handlers_setHandler_self, hw]
  rfl

/-- The destructor calls for the first handler that is not cancelled yet, and for no other. -/
theorem cancelAllCalls_eq (h : s.Numbered) (order : List ℕ) :
    cancelAllCalls order s = match s.firstOf order with
      | none => []
      | some k => s.cancelCalls k := by
  induction order with
  | nil => rfl
  | cons k order ih =>
      unfold firstOf at ih ⊢
      by_cases hfd : (s.handlers k).timerfd = 0
      · rw [cancelAllCalls, cancelTimer_of_eq hfd, List.find?_cons_of_neg (by simpa using hfd),
          cancelCalls_of_eq hfd]
        exact ih
      · have hthrows := cancelTimer_fst h hfd
        rw [cancelAllCalls, List.find?_cons_of_pos (by simpa using hfd)]
        generalize s.cancelTimer k = r at hthrows
        obtain ⟨result, t⟩ := r
        obtain rfl := hthrows
        rfl

theorem cancelAll_eq (h : s.Numbered) (order : List ℕ)
    (hopen : ∀ k, s.firstOf order = some k → s.Live k) :
    cancelAll order s = match s.firstOf order with
      | none => s
      | some k => { s.setHandler k (s.handlers k).cancelled with terminated := true } := by
  induction order with
  | nil => rfl
  | cons k order ih =>
      unfold firstOf at hopen ih ⊢
      by_cases hfd : (s.handlers k).timerfd = 0
      · have hfind : (k :: order).find? (fun k => (s.handlers k).timerfd ≠ 0) =
            order.find? fun k => (s.handlers k).timerfd ≠ 0 :=
          List.find?_cons_of_neg (by simpa using hfd)
        rw [hfind] at hopen ⊢
        rw [cancelAll, cancelTimer_of_eq hfd]
        exact ih hopen
      · have hfind : (k :: order).find? (fun k => (s.handlers k).timerfd ≠ 0) = some k :=
          List.find?_cons_of_pos (by simpa using hfd)
        rw [hfind] at hopen ⊢
        rw [cancelAll, h.cancelTimer_of_ne (hopen k rfl) hfd]

theorem timerfd_of_firstOf {order : List ℕ} (hf : s.firstOf order = some k) :
    (s.handlers k).timerfd ≠ 0 := by
  have hp := List.find?_some hf
  simpa using hp

theorem Accounted.destroyTimer (h : Accounted (s, log)) {timer : TimerId} {order : List ℕ}
    (hopen : ∀ k, s.firstOf order = some k → s.Live k)
    (hall : ∀ k < s.created, s.Live k → (s.handlers k).timer = timer →
      s.firstOf order = some k) :
    Accounted (s.destroyTimer timer order, log ++ cancelAllCalls order s) := by
  have hgone : ∀ k < s.created, Function.update s.destroyed timer true (s.handlers k).timer =
      true → s.Live k → s.firstOf order = some k := by
    intro k hk hd hl
    by_cases ht : (s.handlers k).timer = timer
    · exact hall k hk hl ht
    · rw [Function.update_of_ne ht] at hd
      exact absurd hl (h.destroyed k hk hd)
  unfold TimerLoop.destroyTimer
  rw [cancelAllCalls_eq h.numbered, cancelAll_eq h.numbered order hopen]
  cases hf : s.firstOf order with
  | none =>
      have hn := h.numbered
      rw [List.append_nil]
      refine ⟨⟨hn.unused, hn.weakThis, hn.unique, hn.timerfd, hn.registered, hn.active⟩,
        h.timerfd, h.created, h.number, h.count, h.ordered, fun k hk hd hl => ?_⟩
      have hfirst := hgone k hk hd hl
      rw [hf] at hfirst
      cases hfirst
  | some k =>
      have hk := hopen k hf
      have hc : Accounted (s.setHandler k (s.handlers k).cancelled, log ++ s.cancelCalls k) :=
        h.closed hk (timerfd_of_firstOf hf) rfl rfl (h.numbered.weakThis k) rfl
          fun hne => absurd rfl hne
      have hn := hc.numbered
      refine ⟨⟨hn.unused, hn.weakThis, hn.unique, hn.timerfd, hn.registered, hn.active⟩,
        hc.timerfd, hc.created, hc.number, hc.count, hc.ordered, fun j hj hd hl => ?_⟩
      have hdead : (s.handlers k).cancelled.isOpen = false := rfl
      obtain ⟨hjk, hlive⟩ := (live_setHandler_closed hdead j).mp hl
      have hhandler : (s.setHandler k (s.handlers k).cancelled).handlers j = s.handlers j :=
        handlers_setHandler_ne hjk _
      have hd' : Function.update s.destroyed timer true
          ((s.setHandler k (s.handlers k).cancelled).handlers j).timer = true := hd
      rw [hhandler] at hd'
      have hfirst := hgone j hj hd' hlive
      rw [hf] at hfirst
      exact hjk (Option.some.inj hfirst).symm

/-- The read callback of a one-shot timer removes its event. -/
theorem mem_calls_taskReturns {c : FdCall} (hc : c ∈ s.calls (.loop .taskReturns)) :
    ∃ k, s.task = some k ∧ (s.handlers k).oneTask = true ∧
      c = ⟨.removeEvent, k, (s.handlers k).fd⟩ := by
  unfold calls at hc
  dsimp only at hc
  split at hc
  · cases hc
  · rename_i k htask
    split_ifs at hc with hone
    · exact ⟨k, htask, hone, List.mem_singleton.mp hc⟩
    · cases hc

theorem Accounted.taskReturns (h : Accounted (s, log)) (hl : s.Legal .taskReturns)
    (hopen : ∀ k, s.task = some k → (s.handlers k).oneTask = true → s.Live k) :
    Accounted (s.next .taskReturns, log ++ s.calls (.loop .taskReturns)) := by
  refine h.passed (passed_next hl trivial) (fun c hc => ?_) (fun c hc => ?_) (fun c hc => ?_)
  · obtain ⟨k, -, -, rfl⟩ := mem_calls_taskReturns hc
    exact nofun
  · obtain ⟨k, htask, -, rfl⟩ := mem_calls_taskReturns hc
    exact h.numbered.active k (Or.inr htask)
  · obtain ⟨k, htask, hone, rfl⟩ := mem_calls_taskReturns hc
    exact Or.inl (hopen k htask hone)

theorem Accounted.resetOneTask (h : Accounted (s, log)) (hk : k < s.created)
    (hopen : (s.handlers k).timerfd ≠ 0 → s.Live k) (time : UInt32) :
    Accounted (s.resetOneTask k time,
      log ++ [⟨.timerfd_settime, k, (s.handlers k).timerfd⟩]) := by
  have hp : Passed s (s.next (.resetOneTask k time)) := passed_next hk trivial
  refine h.passed hp (fun c hc => ?_) (fun c hc => ?_) (fun c hc => ?_)
  · rw [List.mem_singleton.mp hc]
    exact nofun
  · rw [List.mem_singleton.mp hc]
    exact hk
  · rw [List.mem_singleton.mp hc]
    by_cases hfd : (s.handlers k).timerfd = 0
    · exact Or.inr hfd
    · exact Or.inl (hopen hfd)

theorem accounted_step {p q : TimerLoop × List FdCall} (h : Accounted p)
    (hs : (recorded.guarded fun p => p.1.UsesOpen).Step p a q) : Accounted q := by
  obtain ⟨s, log⟩ := p
  obtain ⟨⟨-, hl, rfl⟩, hguard⟩ := hs
  cases a with
  | cancelCopy k => exact (h.cancelCopy hguard).released _
  | loop a =>
      refine Accounted.released ?_ _
      cases a with
      | addOneTask timer time fd => exact h.addTask hl.2.1 hl.1
      | addTimedTask timer first interval fd => exact h.addTask hl.2.1 hl.1
      | cancelTimer k => exact h.cancelTimer hguard
      | resetOneTask k time => exact h.resetOneTask hl hguard time
      | destroyTimer timer order => exact h.destroyTimer hguard.1 hguard.2
      | taskReturns => exact h.taskReturns hl hguard
      | _ => exact h.passed (passed_next hl trivial) nofun nofun nofun

theorem accounted_of_reachable {p : TimerLoop × List FdCall}
    (h : Reachable (recorded.guarded fun p => p.1.UsesOpen) p) : Accounted p := by
  refine h.invariant ?_ (fun _ _ _ => accounted_step)
  rintro _ ⟨others, rfl⟩
  exact ⟨⟨fun _ _ => rfl, fun _ => rfl, nofun, nofun, nofun, fun _ hk => hk.elim nofun nofun⟩,
    fun _ hk => absurd rfl hk, nofun, nofun, nofun, .nil, nofun⟩

/-! ### What the other steps do -/

/-- A call through a handler whose timer was closed by another copy. -/
theorem Accounted.not_ordered_of_stale (h : Accounted (s, log)) (hk : k < s.created)
    (hfd : (s.handlers k).timerfd ≠ 0) (hdead : ¬ s.Live k)
    (hc : ⟨.timerfd_settime, k, (s.handlers k).timerfd⟩ ∈ cs) : ¬ Ordered (log ++ cs) :=
  h.not_ordered_append hk hdead hc rfl (h.timerfd k hfd)

theorem mem_cancelCalls (hfd : (s.handlers k).timerfd ≠ 0) :
    ⟨.timerfd_settime, k, (s.handlers k).timerfd⟩ ∈ s.cancelCalls k := by
  rw [cancelCalls_of_ne hfd]
  exact List.mem_cons_self

theorem Accounted.lt_created (h : Accounted (s, log)) (hfd : (s.handlers k).timerfd ≠ 0) :
    k < s.created := by
  by_contra hle
  rw [h.numbered.unused k (Nat.not_lt.mp hle)] at hfd
  exact hfd rfl

/-- The destructor leaves the timers with their `Timer`. -/
theorem kept_cancelAll (h : s.Numbered) {order : List ℕ}
    (hopen : ∀ k, s.firstOf order = some k → s.Live k) (k : ℕ) :
    (cancelAll order s).created = s.created ∧
      ((cancelAll order s).handlers k).timer = (s.handlers k).timer := by
  rw [cancelAll_eq h order hopen]
  cases hf : s.firstOf order with
  | none => exact ⟨rfl, rfl⟩
  | some j =>
      refine ⟨rfl, ?_⟩
      show ((s.setHandler j (s.handlers j).cancelled).handlers k).timer = _
      by_cases hkj : k = j
      · rw [hkj, handlers_setHandler_self]
        rfl
      · rw [handlers_setHandler_ne hkj]

/-- A destructor that comes to a closed timer first, or does not come to an open one. -/
theorem Accounted.not_closedOnce_destroyTimer (h : Accounted (s, log)) {timer : TimerId}
    {order : List ℕ} (hguard : ¬ s.UsesOpen (.loop (.destroyTimer timer order))) :
    ¬ ClosedOnce (s.serverNext (.loop (.destroyTimer timer order)),
      log ++ cancelAllCalls order s) := by
  rintro ⟨hordered, honce⟩
  have hcs := cancelAllCalls_eq h.numbered order
  have hopen : ∀ k, s.firstOf order = some k → s.Live k := by
    intro k hf
    by_contra hdead
    have hfd := timerfd_of_firstOf hf
    rw [hcs, hf] at hordered
    exact h.not_ordered_of_stale (h.lt_created hfd) hfd hdead (mem_cancelCalls hfd) hordered
  refine hguard ⟨hopen, fun k hk hl ht => ?_⟩
  by_contra hf
  obtain ⟨hcreated, htimer⟩ := kept_cancelAll h.numbered hopen k
  have hcalls : closes (cancelAllCalls order s) k = 0 := by
    rw [hcs]
    cases hf' : s.firstOf order with
    | none => rfl
    | some j =>
        refine closes_eq_zero fun c hc _ heq => hf ?_
        rw [hf', ← heq, handler_of_mem_cancelCalls hc]
  have hlog : closes log k = 0 := (h.count k hk).trans (if_pos hl)
  have hgone : Function.update (cancelAll order s).destroyed timer true
      ((cancelAll order s).handlers k).timer = true := by
    rw [htimer, ht, Function.update_self]
  have hone := honce k (Nat.lt_of_lt_of_eq hk hcreated.symm) hgone
  rw [closes_append, hlog, hcalls] at hone
  cases hone

theorem not_closedOnce_step {p q : TimerLoop × List FdCall} (h : Accounted p)
    (hs : recorded.Step p a q) (hguard : ¬ p.1.UsesOpen a) : ¬ ClosedOnce q := by
  obtain ⟨s, log⟩ := p
  obtain ⟨-, hl, rfl⟩ := hs
  have hstale : ∀ k, k < s.created → ¬ ((s.handlers k).timerfd ≠ 0 → s.Live k) →
      ∀ cs : List FdCall, ((s.handlers k).timerfd ≠ 0 →
        ⟨.timerfd_settime, k, (s.handlers k).timerfd⟩ ∈ cs) → ¬ Ordered (log ++ cs) := by
    intro k hk hopen cs hc
    obtain ⟨hfd, hdead⟩ := Classical.not_imp.mp hopen
    exact h.not_ordered_of_stale hk hfd hdead (hc hfd)
  cases a with
  | cancelCopy k => exact fun hq => hstale k hl hguard _ mem_cancelCalls hq.ordered
  | loop a =>
      cases a with
      | cancelTimer k => exact fun hq => hstale k hl hguard _ mem_cancelCalls hq.ordered
      | resetOneTask k time =>
          exact fun hq => hstale k hl hguard _ (fun _ => List.mem_cons_self) hq.ordered
      | destroyTimer timer order => exact h.not_closedOnce_destroyTimer hguard
      | taskReturns =>
          obtain ⟨k, hk⟩ := not_forall.mp hguard
          obtain ⟨htask, hk⟩ := Classical.not_imp.mp hk
          obtain ⟨hone, hdead⟩ := Classical.not_imp.mp hk
          have hc : ⟨.removeEvent, k, (s.handlers k).fd⟩ ∈ s.calls (.loop .taskReturns) := by
            have htask' : s.task = some k := htask
            have hone' : (s.handlers k).oneTask = true := hone
            unfold calls
            dsimp only
            rw [htask']
            dsimp only
            rw [if_pos hone']
            exact List.mem_cons_self
          intro hq
          exact h.not_ordered_append (h.numbered.active k (Or.inr htask)) hdead hc rfl rfl
            hq.ordered
      | _ => exact absurd trivial hguard

/-- **Each timerfd is closed once**, and not used after that, in every run whose steps use open
descriptors, and the first step that does not breaks it. -/
theorem closedOnce_iff {p : TimerLoop × List FdCall}
    (h : Reachable (recorded.guarded fun p => p.1.UsesOpen) p) :
    ClosedOnce p ∧ ∀ a q, recorded.Step p a q → (ClosedOnce q ↔ p.1.UsesOpen a) := by
  have hp := accounted_of_reachable h
  refine ⟨hp.closedOnce, fun a q hs => ⟨fun hq => ?_, fun hguard => ?_⟩⟩
  · by_contra hguard
    exact not_closedOnce_step hp hs hguard hq
  · exact (accounted_step hp ⟨hs, hguard⟩).closedOnce

/-- A timer is cancelled through a copy of its handler. -/
def addThenCancelCopy : List ServerAct := [.loop (.addTimedTask 0 100 100 3), .cancelCopy 0]

def recordedAfter : TimerLoop × List FdCall → List ServerAct → TimerLoop × List FdCall
  | p, [] => p
  | p, a :: as => recordedAfter (p.1.serverNext a, p.2 ++ p.1.calls a) as

theorem path_addThenCancelCopy : Path (recorded.guarded fun p => p.1.UsesOpen) (standard, [])
    addThenCancelCopy (recordedAfter (standard, []) addThenCancelCopy) := by
  have hfree : standard.LowestFree 3 := lowestFree_three rfl nofun
  exact .cons ⟨⟨rfl, ⟨rfl, hfree⟩, rfl⟩, trivial⟩
    (.cons ⟨⟨rfl, Nat.zero_lt_one, rfl⟩, fun _ => rfl⟩ (.nil _))

theorem reachable_addThenCancelCopy : Reachable (recorded.guarded fun p => p.1.UsesOpen)
    (recordedAfter (standard, []) addThenCancelCopy) :=
  path_addThenCancelCopy.reachable (.init ⟨[0, 1, 2], rfl⟩)

/-- The destructor of the `Timer` closes the descriptor again. -/
theorem closedOnce_iff_destroyTimer :
    ClosedOnce (recordedAfter (standard, []) addThenCancelCopy) ∧
      ¬ ClosedOnce (recordedAfter (standard, [])
        (addThenCancelCopy ++ [.loop (.destroyTimer 0 [0])])) := by
  have h := reachable_addThenCancelCopy
  have hs : recorded.Step (recordedAfter (standard, []) addThenCancelCopy)
      (.loop (.destroyTimer 0 [0])) (recordedAfter (standard, [])
        (addThenCancelCopy ++ [.loop (.destroyTimer 0 [0])])) :=
    ⟨rfl, ⟨rfl, .refl _⟩, rfl⟩
  refine ⟨(closedOnce_iff h).1, fun hq => ?_⟩
  obtain ⟨hfirst, -⟩ := ((closedOnce_iff h).2 _ _ hs).mp hq
  exact absurd (hfirst 0 rfl) (by decide)

/-- The stored handler is cancelled too, after a new descriptor has got the number. -/
def cancelTwice : List ServerAct :=
  addThenCancelCopy ++ [.loop (.openOther 3), .loop (.cancelTimer 0)]

/-- The number of the timer is closed twice, the second time under another descriptor. -/
theorem closed_twice : Path recorded (standard, []) cancelTwice
      (recordedAfter (standard, []) cancelTwice) ∧
    (recordedAfter (standard, []) (addThenCancelCopy ++ [.loop (.openOther 3)])).1.others =
      [3, 0, 1, 2] ∧
    (recordedAfter (standard, []) cancelTwice).1.others = [0, 1, 2] ∧
    closes (recordedAfter (standard, []) cancelTwice).2 0 = 2 ∧
    ¬ ClosedOnce (recordedAfter (standard, []) cancelTwice) := by
  have hp := accounted_of_reachable reachable_addThenCancelCopy
  have hfree : (recordedAfter (standard, []) addThenCancelCopy).1.LowestFree 3 := by
    refine lowestFree_three rfl fun k hk => ?_
    have hlt : k < 1 := hp.numbered.lt_created hk
    obtain rfl : k = 0 := by omega
    cases hk
  have hpath : Path recorded (recordedAfter (standard, []) addThenCancelCopy)
      [.loop (.openOther 3), .loop (.cancelTimer 0)]
      (recordedAfter (standard, []) cancelTwice) :=
    .cons ⟨rfl, hfree, rfl⟩ (.cons ⟨rfl, Nat.zero_lt_one, rfl⟩ (.nil _))
  refine ⟨path_addThenCancelCopy.of_guarded.append hpath, rfl, rfl, rfl, fun hq => ?_⟩
  have hordered := hq.ordered
  revert hordered
  unfold Ordered FdCall.Stale
  decide

end TimerLoop

end Dagger
