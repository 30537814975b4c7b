import Mathlib.Algebra.Group.Nat.Defs
import Dagger.Timer

/-! # The delays of timers

Five functions turn milliseconds into a `struct itimerspec`, in the arithmetic of `uint32_t`.  The
products stay below `2 ^ 32`, so that the timespecs are exact (`timespec_eq`).  A zero `it_value`
disarms a timer; only `Timer::addTimedTask` raises a delay of 0 to 1. -/

namespace Dagger

/-- `timespec{.tv_sec = time / 1000, .tv_nsec = (time % 1000) * 1000000}`. -/
def timespec (time : UInt32) : Timespec where
  tv_sec := (time / 1000).toNat
  tv_nsec := (time % 1000 * 1000000).toNat

/-- In nanoseconds. -/
def Timespec.worth (t : Timespec) : ℕ := t.tv_sec * 1000000000 + t.tv_nsec

/-- The calls that build an `itimerspec`. -/
inductive TimerCall where
  /-- `Timer::addTimedTask`. -/
  | addTimedTask (firstTime intervalTime : UInt32)
  /-- `Timer::addOneTask`. -/
  | addOneTask (occurTime : UInt32)
  /-- `TimerHandler::resetOneTask`. -/
  | resetOneTask (time : UInt32)
  /-- `TcpClient::addTimedTask`. -/
  | tcpClientAddTimedTask (nextOccurTime intervalTime : UInt32)
  /-- `FreeServerClient::addTimedTask`. -/
  | freeServerClientAddTimedTask (nextOccurTime intervalTime : UInt32)
deriving DecidableEq, Repr

namespace TimerCall

/-- The `spec` that is passed to `timerfd_settime`. -/
def spec : TimerCall → Itimerspec
  | .addTimedTask firstTime intervalTime =>
      let firstTime := if firstTime = 0 then 1 else firstTime
      let nxtTime := timespec firstTime
      let interTime := timespec intervalTime
      ⟨interTime, nxtTime⟩
  | .addOneTask occurTime =>
      let nxtTime := timespec occurTime
      let interTime := ⟨0, 0⟩
      ⟨interTime, nxtTime⟩
  | .resetOneTask time =>
      let nxtTime := timespec time
      let interTime := ⟨0, 0⟩
      ⟨interTime, nxtTime⟩
  | .tcpClientAddTimedTask nextOccurTime intervalTime =>
      let nxtTime := timespec nextOccurTime
      let interTime := timespec intervalTime
      ⟨interTime, nxtTime⟩
  | .freeServerClientAddTimedTask nextOccurTime intervalTime =>
      let nxtTime := timespec nextOccurTime
      let interTime := timespec intervalTime
      ⟨interTime, nxtTime⟩

/-- The delay the caller asks for. -/
def delay : TimerCall → UInt32
  | .addTimedTask firstTime _ => firstTime
  | .addOneTask occurTime => occurTime
  | .resetOneTask time => time
  | .tcpClientAddTimedTask nextOccurTime _ => nextOccurTime
  | .freeServerClientAddTimedTask nextOccurTime _ => nextOccurTime

/-- The interval the caller asks for, 0 where a task is to run once. -/
def interval : TimerCall → UInt32
  | .addTimedTask _ intervalTime => intervalTime
  | .addOneTask _ => 0
  | .resetOneTask _ => 0
  | .tcpClientAddTimedTask _ intervalTime => intervalTime
  | .freeServerClientAddTimedTask _ intervalTime => intervalTime

/-- `Timer::addTimedTask` is the function called. -/
def isTimerAddTimedTask : TimerCall → Bool
  | .addTimedTask _ _ => true
  | _ => false

/-- What is asked of a specification, in nanoseconds. -/
structure Encoded (c : TimerCall) : Prop where
  value_nsec : c.spec.it_value.tv_nsec < 1000000000
  interval_nsec : c.spec.it_interval.tv_nsec < 1000000000
  delay_product : (c.delay % 1000).toNat * 1000000 < 2 ^ 32
  interval_product : (c.interval % 1000).toNat * 1000000 < 2 ^ 32
  interval_worth : c.spec.it_interval.worth = c.interval.toNat * 1000000
  value_worth : c.spec.it_value.worth = (if c.delay = 0 then 1 else c.delay.toNat) * 1000000
  arms : c.spec.it_value ≠ ⟨0, 0⟩

end TimerCall

/-! ### One conversion -/

theorem product_lt (time : UInt32) : (time % 1000).toNat * 1000000 < 2 ^ 32 := by
  have hmod : (time % 1000).toNat = time.toNat % 1000 := UInt32.toNat_mod time 1000
  omega

/-- No product wraps around. -/
theorem timespec_eq (time : UInt32) : timespec time = Timespec.ofMs time := by
  have hmod : (time % 1000).toNat = time.toNat % 1000 := UInt32.toNat_mod time 1000
  have hdiv : (time / 1000).toNat = time.toNat / 1000 := UInt32.toNat_div time 1000
  have hmul : (time % 1000 * 1000000).toNat = (time % 1000).toNat * 1000000 := by
    rw [UInt32.toNat_mul]
    exact Nat.mod_eq_of_lt (product_lt time)
  unfold timespec Timespec.ofMs
  rw [hmul, hdiv, hmod]

theorem timespec_nsec_lt (time : UInt32) : (timespec time).tv_nsec < 1000000000 := by
  rw [timespec_eq]
  simp only [Timespec.ofMs]
  omega

theorem timespec_worth (time : UInt32) : (timespec time).worth = time.toNat * 1000000 := by
  rw [timespec_eq]
  simp only [Timespec.ofMs, Timespec.worth]
  omega

theorem timespec_eq_zero_iff (time : UInt32) : timespec time = ⟨0, 0⟩ ↔ time = 0 := by
  constructor
  · intro h
    have hworth := timespec_worth time
    rw [h] at hworth
    have hzero : (⟨0, 0⟩ : Timespec).worth = 0 := by decide
    have hnat : time.toNat = 0 := by omega
    exact UInt32.toNat_inj.mp hnat
  · rintro rfl
    rw [timespec_eq]
    rfl

/-! ### The five functions -/

namespace TimerCall

variable (c : TimerCall)

/-- Every specification is made of timespecs built so, or zero. -/
theorem spec_eq : c.spec = ⟨timespec c.interval,
    timespec (if c.isTimerAddTimedTask = true ∧ c.delay = 0 then 1 else c.delay)⟩ := by
  cases c with
  | addTimedTask firstTime intervalTime => simp [spec, interval, delay, isTimerAddTimedTask]
  | addOneTask occurTime => simp [spec, interval, delay, isTimerAddTimedTask, timespec]
  | resetOneTask time => simp [spec, interval, delay, isTimerAddTimedTask, timespec]
  | tcpClientAddTimedTask nextOccurTime intervalTime =>
      simp [spec, interval, delay, isTimerAddTimedTask]
  | freeServerClientAddTimedTask nextOccurTime intervalTime =>
      simp [spec, interval, delay, isTimerAddTimedTask]

theorem arms_iff : c.spec.it_value ≠ ⟨0, 0⟩ ↔ c.isTimerAddTimedTask = true ∨ c.delay ≠ 0 := by
  rw [spec_eq, ne_eq, timespec_eq_zero_iff]
  by_cases hdelay : c.delay = 0
  · by_cases hkind : c.isTimerAddTimedTask = true
    · simp [hdelay, hkind]
    · simp [hdelay, hkind]
  · simp [hdelay]

/-- **The encoding** is as asked exactly in `Timer::addTimedTask` and for delays other than 0. -/
theorem encoded_iff : c.Encoded ↔ c.isTimerAddTimedTask = true ∨ c.delay ≠ 0 := by
  constructor
  · intro h
    exact c.arms_iff.mp h.arms
  · intro h
    have hvalue : (if c.isTimerAddTimedTask = true ∧ c.delay = 0 then 1 else c.delay).toNat =
        if c.delay = 0 then 1 else c.delay.toNat := by
      by_cases hdelay : c.delay = 0
      · have hkind : c.isTimerAddTimedTask = true := h.resolve_right (not_not.mpr hdelay)
        simp [hdelay, hkind]
      · simp [hdelay]
    refine ⟨?_, ?_, product_lt _, product_lt _, ?_, ?_, c.arms_iff.mpr h⟩
    · rw [spec_eq]
      exact timespec_nsec_lt _
    · rw [spec_eq]
      exact timespec_nsec_lt _
    · rw [spec_eq]
      exact timespec_worth _
    · rw [spec_eq, timespec_worth, hvalue]

/-- A task added with a delay of 0 is disarmed at once. -/
theorem addOneTask_zero_disarmed : (addOneTask 0).spec = Itimerspec.zero ∧ ¬ ∀ c, Encoded c :=
  ⟨rfl, fun h => (h (.addOneTask 0)).arms rfl⟩

end TimerCall

/-! ### In the loop -/

namespace TimerLoop

variable (s : TimerLoop) (timer : TimerId) (fd handler : ℕ)

theorem addTimedTask_eq (firstTime intervalTime : UInt32) :
    s.addTimedTask timer firstTime intervalTime fd =
      s.addTask timer false (TimerCall.addTimedTask firstTime intervalTime).spec fd := by
  unfold addTimedTask TimerCall.spec
  simp only [timespec_eq]

theorem addOneTask_eq (occurTime : UInt32) : s.addOneTask timer occurTime fd =
    s.addTask timer true (TimerCall.addOneTask occurTime).spec fd := by
  unfold addOneTask TimerCall.spec
  simp only [timespec_eq]

theorem resetOneTask_eq (time : UInt32) : s.resetOneTask handler time =
    s.timerfdSettime (s.handlers handler).timerfd (TimerCall.resetOneTask time).spec := by
  unfold resetOneTask TimerCall.spec
  simp only [timespec_eq]

/-- An added timer is armed exactly when its specification is as asked. -/
theorem addOneTask_armed_iff (occurTime : UInt32) :
    ((s.addOneTask timer occurTime fd).handlers s.created).armed = true ↔
      (TimerCall.addOneTask occurTime).Encoded := by
  rw [TimerCall.encoded_iff, ← TimerCall.arms_iff, addOneTask_eq]
  simp [addTask]

theorem addTimedTask_armed (firstTime intervalTime : UInt32) :
    ((s.addTimedTask timer firstTime intervalTime fd).handlers s.created).armed = true := by
  rw [addTimedTask_eq]
  have h := (TimerCall.addTimedTask firstTime intervalTime).arms_iff.mpr (Or.inl rfl)
  simpa [addTask] using h

theorem resetOneTask_armed_iff (time : UInt32) (hlive : s.Live handler)
    (hfd : (s.handlers handler).timerfd = (s.handlers handler).fd) :
    ((s.resetOneTask handler time).handlers handler).armed = true ↔
      (TimerCall.resetOneTask time).Encoded := by
  rw [TimerCall.encoded_iff, ← TimerCall.arms_iff, resetOneTask_eq]
  unfold Live at hlive
  simp [timerfdSettime, onFd, hlive, hfd]

end TimerLoop

end Dagger
