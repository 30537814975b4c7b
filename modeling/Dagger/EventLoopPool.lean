import Mathlib.Data.List.Nodup
import Dagger.Transition

/-! # `EventLoopPool`

One thread calls `setHelperThreadsNumAndStart` and `getNextPool`, as often as it likes; every
thread it starts runs `threadFunc`.  A critical section of `mu_` is one step: the increment of
`cnt` with its notification, and the look at the wait condition, after which the caller goes on or
sleeps on `cv_`.

`cnt` is never reset, and the indices of the threads start at 0 in every call, so a call after
threads were started gives `loops_[0]` to another thread, or waits forever (the second half of
`sound_of_guarded`). -/

namespace Dagger

open Transition

/-- Where a thread is in `threadFunc`. -/
inductive WorkerPc where
  | created
  /-- After `loop.init()`. -/
  | initialized
  /-- After `++cnt`, in `loop.start()`. -/
  | signalled
deriving DecidableEq

structure Worker where
  /-- The `i` of `loops_[i]`. -/
  loop : ℕ
  pc : WorkerPc := .created

/-- Where the caller is in `setHelperThreadsNumAndStart`. -/
inductive StartPc where
  | idle
  /-- In the loop over `threads_.emplace_back`. -/
  | starting (nums : UInt64) (i : ℕ)
  /-- Before it looks at the condition under `mu_`. -/
  | checking (nums : UInt64)
  /-- Asleep on `cv_`. -/
  | blocked (nums : UInt64)

structure EventLoopPool where
  threads : List Worker := []
  cnt : UInt64 := 0
  nextIndex : UInt64 := 0
  realSize : UInt64 := 0
  caller : StartPc := .idle

/-- `single_loop_`, or an element of `loops_`. -/
inductive PooledLoop where
  | single
  | helper (i : ℕ)

namespace EventLoopPool

inductive Act where
  | setHelperThreadsNumAndStart (nums : UInt64)
  /-- One round of the loop in it, or its end. -/
  | emplaceThread
  /-- The lock, and the look at `cnt == nums`. -/
  | check
  /-- A spurious end of the sleep. -/
  | wake
  | getNextPool
  /-- `loop.init()` in thread `t`. -/
  | init (t : ℕ)
  /-- `++cnt; cv_.notify_one()` in thread `t`. -/
  | signal (t : ℕ)

section Defs

variable (s : EventLoopPool)

/-- `none` is a division by zero. -/
def getNextPool : Option PooledLoop :=
  if s.threads.isEmpty then some .single
  else if s.realSize = 0 then none
  else some (.helper (s.nextIndex % s.realSize).toNat)

def setPc (t : ℕ) (pc : WorkerPc) : List Worker := s.threads.modify t fun w => { w with pc }

/-- `notify_one`. -/
def notified : StartPc :=
  match s.caller with
  | .blocked nums => .checking nums
  | pc => pc

def next : Act → EventLoopPool
  | .setHelperThreadsNumAndStart nums => { s with realSize := nums, caller := .starting nums 0 }
  | .emplaceThread =>
      match s.caller with
      | .starting nums i =>
          if i < nums.toNat then
            { s with threads := s.threads ++ [{ loop := i }], caller := .starting nums (i + 1) }
          else { s with caller := .checking nums }
      | _ => s
  | .check =>
      match s.caller with
      | .checking nums => { s with caller := if s.cnt = nums then .idle else .blocked nums }
      | _ => s
  | .wake => { s with caller := s.notified }
  | .getNextPool => if s.threads.isEmpty then s else { s with nextIndex := s.nextIndex + 1 }
  | .init t => { s with threads := s.setPc t .initialized }
  | .signal t =>
      { s with threads := s.setPc t .signalled, cnt := s.cnt + 1, caller := s.notified }

def Enabled (MAX_THREADS : UInt64) : Act → Prop
  | .setHelperThreadsNumAndStart nums => s.caller = .idle ∧ nums ≤ MAX_THREADS
  | .emplaceThread => ∃ nums i, s.caller = .starting nums i
  | .check => ∃ nums, s.caller = .checking nums
  | .wake => ∃ nums, s.caller = .blocked nums
  | .getNextPool => s.caller = .idle
  | .init t => ∃ i, s.threads[t]? = some ⟨i, .created⟩
  | .signal t => ∃ i, s.threads[t]? = some ⟨i, .initialized⟩

/-! ### What the pool is for -/

/-- How many threads ran `loops_[i].init()`. -/
def inits (i : ℕ) : ℕ := s.threads.countP fun w => w.loop = i ∧ w.pc ≠ .created

def Initialized : PooledLoop → Prop
  | .single => True
  | .helper i => 0 < s.inits i

/-- The caller is in `cv_.wait` for `nums` threads. -/
def Waits (nums : UInt64) : Prop := s.caller = .checking nums ∨ s.caller = .blocked nums

structure Sound : Prop where
  /-- A loop belongs to one thread. -/
  once : ∀ i, s.inits i ≤ 1
  /-- A call that has returned has waited for its threads. -/
  ready : s.caller = .idle → ∀ w ∈ s.threads, w.pc ≠ .created
  /-- The call does not wait for longer than it has to. -/
  released : ∀ nums, s.Waits nums → (∀ w ∈ s.threads, w.pc = .signalled) →
    s.cnt = nums ∧ s.caller = .checking nums
  picks : s.caller = .idle → ∃ loop, s.getNextPool = some loop ∧ s.Initialized loop

end Defs

def system (MAX_THREADS : UInt64) : System EventLoopPool Act where
  Init s := s = {}
  Step s a t := s.Enabled MAX_THREADS a ∧ t = s.next a

/-- Threads are started by one call at most, and none follows it. -/
def FirstStart (s : EventLoopPool) : Act → Prop
  | .setHelperThreadsNumAndStart _ => s.threads = []
  | _ => True

variable {MAX_THREADS : UInt64} {s t : EventLoopPool} {a : Act}

/-! ### One thread moves on -/

/-- How many threads have signalled. -/
def signals (s : EventLoopPool) : ℕ := s.threads.countP fun w => w.pc = .signalled

theorem setPc_split {k i : ℕ} {old : WorkerPc} (h : s.threads[k]? = some ⟨i, old⟩)
    (pc : WorkerPc) : ∃ pre post, s.threads = pre ++ ⟨i, old⟩ :: post ∧
      s.setPc k pc = pre ++ ⟨i, pc⟩ :: post := by
  obtain ⟨hk, hget⟩ := List.getElem?_eq_some_iff.mp h
  obtain ⟨pre, w, post, hl, hlen, hm⟩ :=
    List.exists_of_modify (fun w : Worker => { w with pc }) hk
  have hw : s.threads[k] = w := by
    simp only [hl]
    rw [List.getElem_append_right (Nat.le_of_eq hlen)]
    simp [hlen]
  obtain rfl : ⟨i, old⟩ = w := hget.symm.trans hw
  exact ⟨pre, post, hl, hm⟩

theorem map_loop_setPc (k : ℕ) (pc : WorkerPc) :
    (s.setPc k pc).map Worker.loop = s.threads.map Worker.loop := by
  unfold setPc
  refine List.ext_getElem? fun j => ?_
  rw [List.getElem?_map, List.getElem?_map, List.getElem?_modify]
  cases s.threads[j]? with
  | none => rfl
  | some w =>
      by_cases h : k = j
      · simp [h]
      · simp [h]

theorem length_setPc (k : ℕ) (pc : WorkerPc) : (s.setPc k pc).length = s.threads.length :=
  List.length_modify _ _ _

/-- `loop.init()` does not signal. -/
theorem signals_init {k i : ℕ} (h : s.threads[k]? = some ⟨i, .created⟩) :
    (s.next (.init k)).signals = s.signals := by
  obtain ⟨pre, post, hl, hm⟩ := setPc_split h .initialized
  show (s.setPc k .initialized).countP _ = s.threads.countP _
  rw [hl, hm]
  simp

theorem signals_signal {k i : ℕ} (h : s.threads[k]? = some ⟨i, .initialized⟩) :
    (s.next (.signal k)).signals = s.signals + 1 := by
  obtain ⟨pre, post, hl, hm⟩ := setPc_split h .signalled
  show (s.setPc k .signalled).countP _ = s.threads.countP _ + 1
  rw [hl, hm]
  simp [Nat.add_assoc]

/-! ### The first start -/

/-- The caller waits for the threads it has started, and sleeps only while one is missing. -/
def Waiting (s : EventLoopPool) : Prop :=
  match s.caller with
  | .idle => s.threads.length = s.realSize.toNat ∧ s.cnt = s.realSize
  | .starting nums i => s.realSize = nums ∧ s.threads.length = i ∧ i ≤ nums.toNat
  | .checking nums => s.realSize = nums ∧ s.threads.length = nums.toNat
  | .blocked nums => s.realSize = nums ∧ s.threads.length = nums.toNat ∧ s.cnt ≠ nums

structure Started (s : EventLoopPool) : Prop where
  loops : s.threads.map Worker.loop = List.range s.threads.length
  cnt : s.cnt.toNat = s.signals
  waiting : s.Waiting

namespace Started

theorem length_le (h : s.Started) : s.threads.length ≤ s.realSize.toNat := by
  have hw := h.waiting
  unfold Waiting at hw
  split at hw
  · exact Nat.le_of_eq hw.1
  · rw [hw.1, hw.2.1]
    exact hw.2.2
  · rw [hw.1]
    exact Nat.le_of_eq hw.2
  · rw [hw.1]
    exact Nat.le_of_eq hw.2.1

theorem signals_le (s : EventLoopPool) : s.signals ≤ s.threads.length := List.countP_le_length

theorem signals_eq_length : s.signals = s.threads.length ↔ ∀ w ∈ s.threads, w.pc = .signalled := by
  unfold signals
  rw [List.countP_eq_length]
  simp only [decide_eq_true_iff]

/-- When the call has returned, every thread is in `loop.start()`. -/
theorem signalled_of_idle (h : s.Started) (hc : s.caller = .idle) :
    ∀ w ∈ s.threads, w.pc = .signalled := by
  have hw := h.waiting
  simp only [Waiting, hc] at hw
  rw [← signals_eq_length, ← h.cnt, hw.1, hw.2]

/-- The wait of a call that has started its threads. -/
theorem waiting_checking {nums : UInt64} (h : s.Started) (hw : s.Waits nums) :
    s.realSize = nums ∧ s.threads.length = nums.toNat ∧
      (s.caller = .checking nums ∨ s.cnt ≠ nums) := by
  have hwait := h.waiting
  rcases hw with hc | hc
  · simp only [Waiting, hc] at hwait
    exact ⟨hwait.1, hwait.2, Or.inl hc⟩
  · simp only [Waiting, hc] at hwait
    exact ⟨hwait.1, hwait.2.1, Or.inr hwait.2.2⟩

/-- The loop of a thread that has signalled is initialised. -/
theorem inits_pos {i : ℕ} (h : s.Started) (hall : ∀ w ∈ s.threads, w.pc = .signalled)
    (hi : i < s.threads.length) : 0 < s.inits i := by
  have hmem : i ∈ s.threads.map Worker.loop := by
    rw [h.loops]
    exact List.mem_range.mpr hi
  obtain ⟨w, hw, hl⟩ := List.mem_map.mp hmem
  refine List.countP_pos_iff.mpr ⟨w, hw, ?_⟩
  rw [hall w hw]
  simp [hl]

theorem sound (h : s.Started) : s.Sound := by
  have honce : ∀ i, s.inits i ≤ (s.threads.map Worker.loop).count i := by
    intro i
    unfold inits
    rw [List.count, List.countP_map]
    refine List.countP_mono_left fun w _ hw => ?_
    simp only [decide_eq_true_iff] at hw
    simpa using hw.1
  refine ⟨fun i => ?_, fun hc w hw => ?_, fun nums hw hall => ?_, fun hc => ?_⟩
  · refine Nat.le_trans (honce i) ?_
    rw [h.loops]
    exact List.nodup_iff_count_le_one.mp List.nodup_range i
  · rw [h.signalled_of_idle hc w hw]
    exact nofun
  · obtain ⟨-, hlen, hor⟩ := h.waiting_checking hw
    have hcnt : s.cnt = nums := by
      apply UInt64.toNat_inj.mp
      rw [h.cnt, signals_eq_length.mpr hall, hlen]
    exact ⟨hcnt, hor.resolve_right fun hne => hne hcnt⟩
  · unfold getNextPool
    by_cases he : s.threads = []
    · exact ⟨.single, by simp [he], trivial⟩
    · have hlen : 0 < s.threads.length := List.length_pos_iff.mpr he
      have hsize := h.length_le
      have hne : s.realSize ≠ 0 := by
        intro hz
        rw [hz] at hsize
        simp at hsize
        exact he hsize
      have hw := h.waiting
      simp only [Waiting, hc] at hw
      refine ⟨.helper (s.nextIndex % s.realSize).toNat, by simp [he, hne], ?_⟩
      have hlt : (s.nextIndex % s.realSize).toNat < s.threads.length := by
        rw [hw.1, UInt64.toNat_mod]
        exact Nat.mod_lt _ (by omega)
      exact h.inits_pos (h.signalled_of_idle hc) hlt

theorem loops_setPc (h : s.Started) (k : ℕ) (pc : WorkerPc) :
    (s.setPc k pc).map Worker.loop = List.range (s.setPc k pc).length := by
  rw [map_loop_setPc, length_setPc]
  exact h.loops

theorem init {k i : ℕ} (h : s.Started) (hk : s.threads[k]? = some ⟨i, .created⟩) :
    (s.next (.init k)).Started := by
  refine ⟨h.loops_setPc k .initialized, ?_, ?_⟩
  · rw [signals_init hk]
    exact h.cnt
  · have hw := h.waiting
    unfold Waiting next
    simp only [length_setPc]
    exact hw

/-- The counter does not wrap: there are no more threads than `realSize`. -/
theorem signal {k i : ℕ} (h : s.Started) (hk : s.threads[k]? = some ⟨i, .initialized⟩) :
    (s.next (.signal k)).Started := by
  have hw := h.waiting
  refine ⟨h.loops_setPc k .signalled, ?_, ?_⟩
  · have hsig := signals_signal hk
    have hle := h.length_le
    have hbound := signals_le (s.next (.signal k))
    have hlen : (s.next (.signal k)).threads.length = s.threads.length := length_setPc k .signalled
    have hsize := s.realSize.toNat_lt
    rw [hsig, hlen] at hbound
    rw [hsig]
    show (s.cnt + 1).toNat = _
    rw [UInt64.toNat_add, h.cnt]
    exact Nat.mod_eq_of_lt (by simp; omega)
  · cases hc : s.caller with
    | idle =>
        have hall := h.signalled_of_idle hc _ (List.mem_of_getElem? hk)
        cases hall
    | starting nums i | checking nums =>
        simp only [Waiting, hc] at hw
        simp only [Waiting, next, notified, hc, length_setPc]
        exact hw
    | blocked nums =>
        -- the notification sends the caller back to the condition
        simp only [Waiting, hc] at hw
        simp only [Waiting, next, notified, hc, length_setPc]
        exact ⟨hw.1, hw.2.1⟩

end Started

theorem started_next (h : s.Started) (hl : s.Enabled MAX_THREADS a) (hf : s.FirstStart a) :
    (s.next a).Started := by
  have hw := h.waiting
  cases a with
  | setHelperThreadsNumAndStart nums =>
      refine ⟨h.loops, h.cnt, rfl, ?_, Nat.zero_le _⟩
      show s.threads.length = 0
      rw [show s.threads = [] from hf]
      rfl
  | emplaceThread =>
      obtain ⟨nums, i, hc⟩ := hl
      simp only [Waiting, hc] at hw
      obtain ⟨hsize, hlen, hi⟩ := hw
      unfold next
      simp only [hc]
      by_cases hlt : i < nums.toNat
      · rw [if_pos hlt]
        refine ⟨?_, ?_, hsize, ?_, hlt⟩
        · simp [h.loops, hlen, List.range_succ]
        · show s.cnt.toNat = (s.threads ++ [(⟨i, .created⟩ : Worker)]).countP _
          rw [List.countP_append]
          exact h.cnt
        · simp [hlen]
      · rw [if_neg hlt]
        exact ⟨h.loops, h.cnt, hsize, by show s.threads.length = _; omega⟩
  | check =>
      obtain ⟨nums, hc⟩ := hl
      simp only [Waiting, hc] at hw
      unfold next
      simp only [hc]
      refine ⟨h.loops, h.cnt, ?_⟩
      by_cases he : s.cnt = nums
      · simp only [Waiting, he, if_true]
        exact ⟨by rw [hw.1]; exact hw.2, hw.1.symm⟩
      · simp only [Waiting, he, if_false]
        exact ⟨hw.1, hw.2, he⟩
  | wake =>
      obtain ⟨nums, hc⟩ := hl
      simp only [Waiting, hc] at hw
      refine ⟨h.loops, h.cnt, ?_⟩
      simp only [Waiting, next, notified, hc]
      exact ⟨hw.1, hw.2.1⟩
  | getNextPool =>
      unfold next
      split_ifs
      · exact h
      · exact ⟨h.loops, h.cnt, hw⟩
  | init k =>
      obtain ⟨i, hk⟩ := hl
      exact h.init hk
  | signal k =>
      obtain ⟨i, hk⟩ := hl
      exact h.signal hk

theorem started_of_guarded (h : Reachable ((system MAX_THREADS).guarded FirstStart) s) :
    s.Started := by
  refine h.invariant ?_ fun s a t hi hs => ?_
  · rintro _ rfl
    exact ⟨rfl, rfl, rfl, rfl⟩
  · obtain ⟨⟨hl, rfl⟩, hf⟩ := hs
    exact started_next hi hl hf

/-! ### A call after threads were started -/

/-- A call for no threads waits for `cnt` to be 0. -/
theorem not_sound_checking_zero (h : s.Started) (hne : s.threads ≠ [])
    (hall : ∀ w ∈ s.threads, w.pc = .signalled) (hthreads : t.threads = s.threads)
    (hcnt : t.cnt = s.cnt) (hc : t.caller = .checking 0) : ¬ t.Sound := by
  intro hs
  have hlen : 0 < s.threads.length := List.length_pos_iff.mpr hne
  have hzero := (hs.released 0 (Or.inl hc) (by rwa [hthreads])).1
  have hsignals := h.cnt
  rw [← hcnt, hzero, Started.signals_eq_length.mpr hall] at hsignals
  simp at hsignals
  omega

/-- The thread that is started next gets `loops_[0]`, which is taken. -/
theorem not_sound_init_zero (h : s.Started) (hne : s.threads ≠ [])
    (hall : ∀ w ∈ s.threads, w.pc = .signalled)
    (hthreads : t.threads = s.threads ++ [⟨0, .initialized⟩]) : ¬ t.Sound := by
  intro hs
  have hpos : 0 < s.inits 0 := h.inits_pos hall (List.length_pos_iff.mpr hne)
  have htwo : t.inits 0 = s.inits 0 + 1 := by
    unfold inits
    rw [hthreads, List.countP_append]
    rfl
  have hone := hs.once 0
  omega

/-- **The pool is sound** as long as `setHelperThreadsNumAndStart` is called only while no thread
was started: every loop is initialised by one thread, a call returns when its threads are
initialised and is not stuck when they have signalled, and `getNextPool` finds an initialised
loop.  From every state of such a run, a call that breaks the rule leads to a state that is not
sound. -/
theorem sound_of_guarded (h : Reachable ((system MAX_THREADS).guarded FirstStart) s) :
    s.Sound ∧ ∀ nums ≤ MAX_THREADS, s.caller = .idle →
      ¬ s.FirstStart (.setHelperThreadsNumAndStart nums) →
        ∃ as t, Path (system MAX_THREADS) s (.setHelperThreadsNumAndStart nums :: as) t ∧
          ¬ t.Sound := by
  have hs := started_of_guarded h
  refine ⟨hs.sound, fun nums hle hc hne => ?_⟩
  have hall := hs.signalled_of_idle hc
  have hcall : (system MAX_THREADS).Step s (.setHelperThreadsNumAndStart nums)
      { s with realSize := nums, caller := .starting nums 0 } := ⟨⟨hc, hle⟩, rfl⟩
  by_cases hz : nums = 0
  · subst hz
    refine ⟨[.emplaceThread], { s with realSize := 0, caller := .checking 0 },
      .cons hcall (.cons ⟨⟨0, 0, rfl⟩, rfl⟩ (.nil _)), ?_⟩
    exact not_sound_checking_zero hs hne hall rfl rfl rfl
  · have hpos : 0 < nums.toNat := by
      rw [Nat.pos_iff_ne_zero, ne_eq, ← UInt64.toNat_zero, UInt64.toNat_inj]
      exact hz
    have hemplace : (system MAX_THREADS).Step
        { s with realSize := nums, caller := .starting nums 0 } .emplaceThread
        { s with
          realSize := nums
          caller := .starting nums 1
          threads := s.threads ++ [⟨0, .created⟩] } := by
      refine ⟨⟨nums, 0, rfl⟩, ?_⟩
      simp only [next, hpos, if_true]
    refine ⟨[.emplaceThread, .init s.threads.length], _,
      .cons hcall (.cons hemplace (.cons ⟨⟨0, ?_⟩, rfl⟩ (.nil _))), ?_⟩
    · simp
    · refine not_sound_init_zero hs hne hall ?_
      simp [next, setPc, List.modify_eq_take_cons_drop]

/-- `addWorkerThreads(1)`. -/
def addedWorker : List Act :=
  [.setHelperThreadsNumAndStart 1, .emplaceThread, .emplaceThread, .init 0, .signal 0, .check]

/-- The pool after `addWorkerThreads(1)`. -/
def oneWorker : EventLoopPool where
  threads := [⟨0, .signalled⟩]
  cnt := 1
  realSize := 1

theorem oneWorker_path : Path ((system 8).guarded FirstStart) {} addedWorker oneWorker :=
  .cons ⟨⟨⟨rfl, by decide⟩, rfl⟩, rfl⟩ (.cons ⟨⟨⟨1, 0, rfl⟩, rfl⟩, trivial⟩
    (.cons ⟨⟨⟨1, 1, rfl⟩, rfl⟩, trivial⟩ (.cons ⟨⟨⟨0, rfl⟩, rfl⟩, trivial⟩
      (.cons ⟨⟨⟨0, rfl⟩, rfl⟩, trivial⟩ (.cons ⟨⟨⟨1, rfl⟩, rfl⟩, trivial⟩ (.nil _))))))

theorem sound_of_guarded_oneWorker : oneWorker.Sound ∧
    ∃ as t, Path (system 8) oneWorker (.setHelperThreadsNumAndStart 0 :: as) t ∧ ¬ t.Sound := by
  have h := sound_of_guarded (oneWorker_path.reachable (.init rfl))
  exact ⟨h.1, h.2 0 (by decide) rfl nofun⟩

/-- Another `addWorkerThreads(1)`, up to its thread's `loop.init()`. -/
def twoWorkers : EventLoopPool where
  threads := [⟨0, .signalled⟩, ⟨0, .initialized⟩]
  cnt := 1
  realSize := 1
  caller := .starting 1 1

/-- `addWorkerThreads(1)` twice: `loops_[0]` is initialised by two threads. -/
theorem oneWorker_again : ¬ ∀ s, Reachable (system 8) s → s.Sound := by
  intro hall
  have hone : Reachable (system 8) oneWorker :=
    (oneWorker_path.reachable (.init rfl)).of_guarded
  have hagain : Path (system 8) oneWorker
      [.setHelperThreadsNumAndStart 1, .emplaceThread, .init 1] twoWorkers :=
    .cons ⟨⟨rfl, by decide⟩, rfl⟩ (.cons ⟨⟨1, 0, rfl⟩, rfl⟩ (.cons ⟨⟨0, rfl⟩, rfl⟩ (.nil _)))
  have honce := (hall _ (hagain.reachable hone)).once 0
  revert honce
  decide

end EventLoopPool

end Dagger
