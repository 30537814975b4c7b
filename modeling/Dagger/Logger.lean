import Dagger.Kernel
import Dagger.Transition
import Mathlib.Logic.Function.Basic

/-! # `Logger`

The logger of `src/Logger.h` and `src/Sources/Logger.cpp`: its background thread, started by the
constructor, and the threads that call `log` and `stop`, with one action for each access to
shared data.  `wait_for` may end at any time, by its timeout, so that `cond_` and
`isInCollectLog_`, which only decides whether to notify it, have no part here.

`logged` is the history: the formatted messages in the order in which their `log` calls took
`mutex_`; `drained` are those among them that came before the final drain. -/

namespace Dagger

/-- A `std::unique_ptr<std::string>`. -/
abbrev Ptr := Option (List Byte)

inductive LogLevel where
  | DEBUG
  | INFO
  | WARN
  | ERROR
  | FATAL
  | NUM_LOG_LEVELS
deriving DecidableEq, Repr

/-- The number of the enumerator. -/
def LogLevel.val : LogLevel → ℕ
  | DEBUG => 0
  | INFO => 1
  | WARN => 2
  | ERROR => 3
  | FATAL => 4
  | NUM_LOG_LEVELS => 5

/-- `trans_level_to_str`. -/
def LogLevel.str : LogLevel → String
  | INFO => "INFO"
  | DEBUG => "DEBUG"
  | WARN => "WARM"
  | FATAL => "FATAL"
  | ERROR => "ERROR"
  | NUM_LOG_LEVELS => "UNKNOWN"

def EMPTYS_INIT_SIZE : ℕ := 4
def EMPTYS_MAX_SIZE : ℕ := 20
def BUFFER_SIZE : ℕ := 4096

/-- `prepend_msg_for_test`; `buf` is what `strftime` made of the time of day and `tv_usec` its
microseconds. -/
def prependMsgForTest (msg : List Byte) (level : LogLevel) (buf : List Byte) (tv_usec : ℕ) :
    List Byte :=
  buf ++ chars (toString tv_usec) ++ chars " " ++ chars level.str ++ chars "] " ++ msg

/-- Where a thread stands in `log` or in `stop`. -/
inductive CallPhase where
  | idle
  /-- In `log`, before it takes `mutex_`. -/
  | logging (msg : List Byte)
  /-- The message is stored, and the lock still held. -/
  | logged
  /-- In `stop`, before it takes `mutex_`. -/
  | stopping
  /-- Before it waits on `willCloseCond_`, with the lock held. -/
  | stopLocked
  | waiting
  /-- The wait is over, and the lock still to be taken again. -/
  | woken
  /-- At the end of `stop`, with the lock held. -/
  | stopped
deriving DecidableEq

/-- Where the background thread stands. -/
inductive BackPhase where
  /-- At `running.test_and_set()`. -/
  | test
  /-- The new buffers are made, and the lock is still to be taken. -/
  | lock
  /-- At `buffers_.empty()`, with the lock held. -/
  | check
  /-- In `wait_for`. -/
  | waiting
  /-- Before `currentBuffer_` is collected. -/
  | collect
  /-- Before `fullBuffers.swap(buffers_)`. -/
  | swap
  /-- Before `emptys_` is filled up. -/
  | refill
  /-- The lock is released, and `fullBuffers` to be written. -/
  | write
  /-- After the loop, before the lock is taken. -/
  | drainLock
  | drainCollect
  /-- The buffers of `buffers_` from `rest` on are still to be written. -/
  | drainWrite (rest : List Ptr)
  /-- At the second `lock_guard`. -/
  | drainRelock
  /-- At `willCloseCond_.notify_one()`. -/
  | notify
  | finished
deriving DecidableEq

/-- `ι` is the type of the threads that call `log` and `stop`. -/
inductive Thread (ι : Type) where
  | caller (i : ι)
  | background
deriving DecidableEq

structure Logger (ι : Type) where
  level : LogLevel := .INFO
  running : Bool := true
  /-- The thread that holds `mutex_`. -/
  mutex : Option (Thread ι) := none
  currentBuffer : Ptr := some []
  buffers : List Ptr := []
  emptys : List Ptr := List.replicate EMPTYS_INIT_SIZE (some [])
  back : BackPhase := .test
  newEmptys : List Ptr := []
  /-- The collected buffers that are still to be written. -/
  fullBuffers : List Ptr := []
  callers : ι → CallPhase := fun _ => .idle
  /-- The bytes written to `outputFd_`. -/
  written : List Byte := []
  logged : List (List Byte) := []
  drained : List (List Byte) := []
  /-- `stop` was called. -/
  stopCalled : Bool := false

namespace Logger

variable {ι : Type} [DecidableEq ι]

inductive Act (ι : Type) where
  /-- `log` up to the lock; the time of day gives `buf` and `tv_usec`. -/
  | log (i : ι) (level : LogLevel) (logline : List Byte) (buf : List Byte) (tv_usec : ℕ)
  /-- `log` takes `mutex_` and stores its message. -/
  | store (i : ι)
  | endLog (i : ι)
  | setLogLevel (level : LogLevel)
  /-- `stop` up to the lock. -/
  | stop (i : ι)
  | lockStop (i : ι)
  | waitStop (i : ι)
  /-- The wait on `willCloseCond_` ends without a notification. -/
  | wake (i : ι)
  | relockStop (i : ι)
  | endStop (i : ι)
  /-- The background thread goes on; `r` is what its `write` returns, and `waiter` the thread its
  `notify_one` wakes. -/
  | back (r : WriteResult) (waiter : Option ι)

variable (s : Logger ι)

def setCaller (i : ι) (phase : CallPhase) : Logger ι :=
  { s with callers := Function.update s.callers i phase }

/-! ### Storing a message -/

/-- `if (currentBuffer_) buffers_.push_back(std::move(currentBuffer_))`. -/
def pushCurrent : Logger ι :=
  match s.currentBuffer with
  | none => s
  | some buf => { s with buffers := s.buffers ++ [some buf], currentBuffer := none }

/-- `!currentBuffer_ || BUFFER_SIZE - currentBuffer_->size() < msg.size()`, in `size_t`. -/
def Insufficient (msg : List Byte) : Prop :=
  match s.currentBuffer with
  | none => True
  | some buf => (BUFFER_SIZE + (SIZE_MAX + 1) - buf.length) % (SIZE_MAX + 1) < msg.length

instance (msg : List Byte) : Decidable (s.Insufficient msg) := by
  unfold Insufficient
  split <;> infer_instance

/-- A buffer from `emptys_`, or a new one. -/
def takeEmpty : Logger ι :=
  match s.emptys.getLast? with
  | none => { s with currentBuffer := some [] }
  | some ptr => { s with currentBuffer := ptr, emptys := s.emptys.dropLast }

/-- The critical section of `log`; `none` if it dereferences a null pointer. -/
def storeMsg (msg : List Byte) : Option (Logger ι) :=
  let s := if s.Insufficient msg then s.pushCurrent.takeEmpty else s
  s.currentBuffer.map fun buf =>
    { s with currentBuffer := some (buf ++ msg), logged := s.logged ++ [msg] }

/-! ### The background thread -/

/-- `while (emptys_.size() < EMPTYS_MAX_SIZE && i < EMPTYS_INIT_SIZE) ..`. -/
def fillUp : List Ptr → List Ptr → List Ptr
  | emptys, [] => emptys
  | emptys, ptr :: newEmptys =>
      if emptys.length < EMPTYS_MAX_SIZE then fillUp (emptys ++ [ptr]) newEmptys else emptys

/-- `write(outputFd_, ptr->c_str(), ptr->size())`. -/
def writeBuf (ptr : Ptr) (r : WriteResult) : Option (Logger ι) :=
  ptr.map fun buf => match r with
    | .accepted n => { s with written := s.written ++ buf.take n }
    | .error _ => s

/-- The next step of `backThread`; `none` if it dereferences a null pointer. -/
def backThread (r : WriteResult) (waiter : Option ι) : Option (Logger ι) :=
  match s.back with
  | .test =>
      some (if s.running then
          { s with
            back := .lock
            newEmptys := List.replicate EMPTYS_INIT_SIZE (some [])
            fullBuffers := [] }
        else { s with running := true, back := .drainLock })
  | .lock => some { s with mutex := some .background, back := .check }
  | .check =>
      some (if s.buffers = [] then { s with mutex := none, back := .waiting }
        else { s with back := .collect })
  | .waiting => some { s with mutex := some .background, back := .collect }
  | .collect => some { s.pushCurrent with back := .swap }
  | .swap => some { s with fullBuffers := s.buffers, buffers := s.fullBuffers, back := .refill }
  | .refill =>
      some { s with emptys := fillUp s.emptys s.newEmptys, mutex := none, back := .write }
  | .write =>
      match s.fullBuffers with
      | [] => some { s with back := .test }
      | ptr :: rest => (s.writeBuf ptr r).map fun s => { s with fullBuffers := rest }
  | .drainLock =>
      some { s with mutex := some .background, back := .drainCollect, drained := s.logged }
  | .drainCollect => some { s.pushCurrent with back := .drainWrite s.pushCurrent.buffers }
  | .drainWrite [] => some { s with back := .drainRelock }
  | .drainWrite (ptr :: rest) => (s.writeBuf ptr r).map fun s => { s with back := .drainWrite rest }
  | .drainRelock => some { s with mutex := some .background, back := .notify }
  | .notify =>
      -- both guards release the lock at the end
      let s := match waiter with
        | none => s
        | some i => s.setCaller i .woken
      some { s with mutex := none, back := .finished }
  | .finished => some s

/-- When the background thread can go on, and with which answers. -/
def BackEnabled (r : WriteResult) (waiter : Option ι) : Prop :=
  match s.back with
  | .lock | .waiting | .drainLock | .drainRelock => s.mutex = none
  | .write => ∀ ptr ∈ s.fullBuffers.head?, r.Possible (ptr.getD []).length
  | .drainWrite rest => ∀ ptr ∈ rest.head?, r.Possible (ptr.getD []).length
  | .notify => match waiter with
      | none => ∀ i, s.callers i ≠ .waiting
      | some i => s.callers i = .waiting
  | .finished => False
  | _ => True

/-! ### The system -/

def Legal : Act ι → Prop
  | .log i .. => s.callers i = .idle
  | .store i => (∃ msg, s.callers i = .logging msg) ∧ s.mutex = none
  | .endLog i => s.callers i = .logged
  | .setLogLevel _ => True
  | .stop i => s.callers i = .idle
  | .lockStop i => s.callers i = .stopping ∧ s.mutex = none
  | .waitStop i => s.callers i = .stopLocked
  | .wake i => s.callers i = .waiting
  | .relockStop i => s.callers i = .woken ∧ s.mutex = none
  | .endStop i => s.callers i = .stopped
  | .back r waiter => s.BackEnabled r waiter

def next : Act ι → Option (Logger ι)
  | .log i level logline buf tv_usec =>
      if level.val < s.level.val ∨ LogLevel.NUM_LOG_LEVELS.val ≤ level.val then some s
      else some (s.setCaller i (.logging (prependMsgForTest logline level buf tv_usec)))
  | .store i =>
      match s.callers i with
      | .logging msg => (s.storeMsg msg).map fun s =>
          { s.setCaller i .logged with mutex := some (.caller i) }
      | _ => some s
  | .endLog i => some { s.setCaller i .idle with mutex := none }
  | .setLogLevel level => some { s with level }
  | .stop i => some { s.setCaller i .stopping with running := false, stopCalled := true }
  | .lockStop i => some { s.setCaller i .stopLocked with mutex := some (.caller i) }
  | .waitStop i => some { s.setCaller i .waiting with mutex := none }
  | .wake i => some (s.setCaller i .woken)
  | .relockStop i => some { s.setCaller i .stopped with mutex := some (.caller i) }
  | .endStop i => some { s.setCaller i .idle with mutex := none }
  | .back r waiter => s.backThread r waiter

/-- The interleavings of the background thread with the calls of `log` and `stop`. -/
def system (ι : Type) [DecidableEq ι] : Transition.System (Logger ι) (Act ι) where
  Init s := s = {}
  Step s a t := s.Legal a ∧ s.next a = some t

/-- A `write` of the background thread writes all bytes of its buffer. -/
def WritesAll : Act ι → Prop
  | .back r _ =>
      match s.back with
      | .write => ∀ ptr ∈ s.fullBuffers.head?, r = .accepted (ptr.getD []).length
      | .drainWrite rest => ∀ ptr ∈ rest.head?, r = .accepted (ptr.getD []).length
      | _ => True
  | _ => True

end Logger

end Dagger
