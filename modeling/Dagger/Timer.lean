import Dagger.Transition
import Mathlib.Data.List.Basic
import Mathlib.Logic.Function.Basic

/-! # `Timer`

The timers of one event loop (`src/Timer.h`, `src/Sources/Timer.cpp`): the `Timer`s that own
them, the handlers handed out for them, and what the kernel knows of their descriptors.  Calls
that name a descriptor act on whatever has that number at the time.

User code may call a `Timer` in every callback of the loop and before the loop starts, so its
calls are actions of their own.  Events other than those of timers are handled without a trace
here. -/

namespace Dagger

structure Timespec where
  tv_sec : ℕ
  tv_nsec : ℕ
deriving DecidableEq, Repr

/-- `{.tv_sec = time / 1000, .tv_nsec = (time % 1000) * 1000000}`. -/
def Timespec.ofMs (time : UInt32) : Timespec where
  tv_sec := time.toNat / 1000
  tv_nsec := time.toNat % 1000 * 1000000

/-- `struct itimerspec`. -/
structure Itimerspec where
  it_interval : Timespec
  it_value : Timespec
deriving DecidableEq, Repr

/-- The specification that disarms a timer. -/
def Itimerspec.zero : Itimerspec := ⟨⟨0, 0⟩, ⟨0, 0⟩⟩

abbrev TimerId := ℕ

/-- A `TimerHandler` with its event and what the kernel knows of its timerfd. -/
structure TimerHandler where
  /-- `timerfd_`. -/
  timerfd : ℕ := 0
  /-- `timer_`. -/
  timer : TimerId := 0
  /-- The weak pointer of `enable_shared_from_this` is set.  The base is private, so that no
  `shared_ptr` ever sets it. -/
  weakThis : Bool := false
  /-- `event_->fd()`. -/
  fd : ℕ := 0
  /-- The event's read callback is the one of `addOneTask`. -/
  oneTask : Bool := false
  /-- The event is in the epoll set. -/
  registered : Bool := false
  /-- The timerfd is open. -/
  isOpen : Bool := false
  armed : Bool := false
  repeats : Bool := false
  /-- The timer has expired since it was last read. -/
  readable : Bool := false

/-- How `cancelTimer` ends. -/
inductive CancelResult where
  | returned
  /-- `std::bad_weak_ptr` is thrown. -/
  | bad_weak_ptr
deriving DecidableEq, Repr

/-- `ConcurrentMap`: descriptors and the handlers stored under them. -/
abbrev ConcurrentMap := List (ℕ × ℕ)

namespace ConcurrentMap

/-- `um_.insert({timerfd, handler})`, which keeps an entry that is there. -/
def add (timerfd handler : ℕ) (um : ConcurrentMap) : ConcurrentMap :=
  if timerfd ∈ um.map Prod.fst then um else (timerfd, handler) :: um

/-- `um_.erase(timerfd)`. -/
def remove (timerfd : ℕ) (um : ConcurrentMap) : ConcurrentMap :=
  um.filter fun e => e.1 != timerfd

end ConcurrentMap

structure TimerLoop where
  /-- The number of handlers, which are numbered in the order of their creation. -/
  created : ℕ := 0
  handlers : ℕ → TimerHandler := fun _ => {}
  timer_handler_queue : TimerId → ConcurrentMap := fun _ => []
  destroyed : TimerId → Bool := fun _ => false
  /-- The open descriptors that belong to no timer. -/
  others : List ℕ := []
  /-- The timers whose events are still to be handled. -/
  batch : List ℕ := []
  /-- The timer whose task is running. -/
  task : Option ℕ := none
  /-- The timers whose tasks were executed after their end. -/
  late : List ℕ := []
  /-- `std::terminate` was called. -/
  terminated : Bool := false

namespace TimerLoop

inductive Act where
  | addOneTask (timer : TimerId) (occurTime : UInt32) (timerfd : ℕ)
  | addTimedTask (timer : TimerId) (firstTime intervalTime : UInt32) (timerfd : ℕ)
  | cancelTimer (handler : ℕ)
  | resetOneTask (handler : ℕ) (time : UInt32)
  /-- The destructor of a `Timer`, with the order in which it meets the entries of the map. -/
  | destroyTimer (timer : TimerId) (order : List ℕ)
  /-- An armed timer expires. -/
  | expire (handler : ℕ)
  | poll (batch : List ℕ)
  /-- `handle()` on the next event of the batch, up to the task. -/
  | handle
  | taskReturns
  | openOther (fd : ℕ)
  | closeOther (fd : ℕ)

variable (s : TimerLoop)

/-! ### Descriptors -/

def setHandler (handler : ℕ) (h : TimerHandler) : TimerLoop :=
  { s with handlers := Function.update s.handlers handler h }

/-- The open timer with descriptor `fd` is changed by `f`. -/
def onFd (fd : ℕ) (f : TimerHandler → TimerHandler) : TimerLoop :=
  { s with handlers := fun k =>
      if (s.handlers k).isOpen ∧ (s.handlers k).fd = fd then f (s.handlers k) else s.handlers k }

def timerfdSettime (fd : ℕ) (spec : Itimerspec) : TimerLoop :=
  s.onFd fd fun h => { h with
    armed := spec.it_value ≠ ⟨0, 0⟩
    repeats := spec.it_interval ≠ ⟨0, 0⟩
    readable := false }

/-- `epoller->removeEvent(event)` for the event of descriptor `fd`. -/
def removeEvent (fd : ℕ) : TimerLoop := s.onFd fd fun h => { h with registered := false }

/-- `close(fd)`; a closed descriptor leaves the epoll set. -/
def close (fd : ℕ) : TimerLoop := s.onFd fd fun h => { h with isOpen := false, registered := false }

/-- `read(fd, ..)`. -/
def readTimerfd (fd : ℕ) : TimerLoop := s.onFd fd fun h => { h with readable := false }

/-! ### The calls of user code -/

/-- The common body of `addTimedTask` and `addOneTask`; `timerfd` is the result of
`timerfd_create`. -/
def addTask (timer : TimerId) (oneTask : Bool) (spec : Itimerspec) (timerfd : ℕ) : TimerLoop :=
  { s with
    created := s.created + 1
    handlers := Function.update s.handlers s.created {
      timerfd, timer, oneTask
      fd := timerfd
      registered := true
      isOpen := true
      armed := spec.it_value ≠ ⟨0, 0⟩
      repeats := spec.it_interval ≠ ⟨0, 0⟩ }
    timer_handler_queue := Function.update s.timer_handler_queue timer
      ((s.timer_handler_queue timer).add timerfd s.created) }

def addTimedTask (timer : TimerId) (firstTime intervalTime : UInt32) (timerfd : ℕ) : TimerLoop :=
  let firstTime := if firstTime = 0 then 1 else firstTime
  s.addTask timer false ⟨.ofMs intervalTime, .ofMs firstTime⟩ timerfd

def addOneTask (timer : TimerId) (occurTime : UInt32) (timerfd : ℕ) : TimerLoop :=
  s.addTask timer true ⟨⟨0, 0⟩, .ofMs occurTime⟩ timerfd

def resetOneTask (handler : ℕ) (time : UInt32) : TimerLoop :=
  s.timerfdSettime (s.handlers handler).timerfd ⟨⟨0, 0⟩, .ofMs time⟩

/-- `Timer::removeTimer`. -/
def removeTimer (handler : ℕ) : TimerLoop :=
  let h := s.handlers handler
  { s with
    timer_handler_queue := Function.update s.timer_handler_queue h.timer
      ((s.timer_handler_queue h.timer).remove h.timerfd) }

def cancelTimer (handler : ℕ) : CancelResult × TimerLoop :=
  let h := s.handlers handler
  if h.timerfd = 0 then (.returned, s)
  else
    let s := s.timerfdSettime h.timerfd .zero
    let s := s.removeEvent h.fd
    let s := s.close h.timerfd
    let s := s.setHandler handler { s.handlers handler with timerfd := 0 }
    -- `shared_from_this()`
    if (s.handlers handler).weakThis then (.returned, s.removeTimer handler)
    else (.bad_weak_ptr, s)

/-- The loop of `~ConcurrentMap`; an exception that leaves a destructor ends the program. -/
def cancelAll : List ℕ → TimerLoop → TimerLoop
  | [], s => s
  | handler :: order, s =>
      match s.cancelTimer handler with
      | (.returned, s) => cancelAll order s
      | (.bad_weak_ptr, s) => { s with terminated := true }

def destroyTimer (timer : TimerId) (order : List ℕ) : TimerLoop :=
  let s := cancelAll order s
  { s with
    timer_handler_queue := Function.update s.timer_handler_queue timer []
    destroyed := Function.update s.destroyed timer true }

/-! ### The system -/

/-- The timer was not cancelled. -/
def Live (handler : ℕ) : Prop := (s.handlers handler).isOpen = true

instance (handler : ℕ) : Decidable (s.Live handler) := inferInstanceAs (Decidable (_ = true))

/-- The timer was cancelled, or its `Timer` was destroyed. -/
def Ended (handler : ℕ) : Prop :=
  ¬ s.Live handler ∨ s.destroyed (s.handlers handler).timer = true

instance (handler : ℕ) : Decidable (s.Ended handler) := inferInstanceAs (Decidable (_ ∨ _))

/-- No open descriptor has the number `fd`. -/
def FreeFd (fd : ℕ) : Prop := fd ∉ s.others ∧ ∀ k, s.Live k → (s.handlers k).fd ≠ fd

/-- The number the kernel gives to the next descriptor. -/
def LowestFree (fd : ℕ) : Prop := s.FreeFd fd ∧ ∀ m < fd, ¬ s.FreeFd m

def Legal : Act → Prop
  | .addOneTask timer _ timerfd => s.destroyed timer = false ∧ s.LowestFree timerfd
  | .addTimedTask timer _ _ timerfd => s.destroyed timer = false ∧ s.LowestFree timerfd
  | .cancelTimer handler => handler < s.created
  | .resetOneTask handler _ => handler < s.created
  | .destroyTimer timer order => s.destroyed timer = false ∧
      order.Perm ((s.timer_handler_queue timer).map Prod.snd)
  | .expire handler => s.Live handler ∧ (s.handlers handler).armed = true
  | .poll batch => s.batch = [] ∧ s.task = none ∧ batch.Nodup ∧
      ∀ k ∈ batch, (s.handlers k).registered = true ∧ (s.handlers k).readable = true
  | .handle => s.task = none ∧ s.batch ≠ []
  | .taskReturns => s.task ≠ none
  | .openOther fd => s.LowestFree fd
  | .closeOther fd => fd ∈ s.others

/-- A run that goes on after `cancelTimer` has thrown is one in which its caller has caught
`std::bad_weak_ptr`; uncaught it ends the program. -/
def next : Act → TimerLoop
  | .addOneTask timer occurTime timerfd => s.addOneTask timer occurTime timerfd
  | .addTimedTask timer firstTime intervalTime timerfd =>
      s.addTimedTask timer firstTime intervalTime timerfd
  | .cancelTimer handler => (s.cancelTimer handler).2
  | .resetOneTask handler time => s.resetOneTask handler time
  | .destroyTimer timer order => s.destroyTimer timer order
  | .expire handler =>
      let h := s.handlers handler
      s.setHandler handler { h with armed := h.repeats, readable := true }
  | .poll batch => { s with batch }
  | .handle =>
      match s.batch with
      | [] => s
      | k :: batch =>
          { s.readTimerfd (s.handlers k).fd with
            batch
            task := some k
            late := if s.Ended k then s.late ++ [k] else s.late }
  | .taskReturns =>
      match s.task with
      | none => s
      | some k =>
          { (if (s.handlers k).oneTask then s.removeEvent (s.handlers k).fd else s) with
            task := none }
  | .openOther fd => { s with others := fd :: s.others }
  | .closeOther fd => { s with others := s.others.erase fd }

/-- The runs of one event loop and its timers, from a process with some open descriptors. -/
def system : Transition.System TimerLoop Act where
  Init s := ∃ others, s = { others }
  Step s a t := s.terminated = false ∧ s.Legal a ∧ t = s.next a

end TimerLoop

end Dagger
