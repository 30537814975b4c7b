import Dagger.MutualExclusion
import Mathlib.Data.Nat.Notation
import Mathlib.Tactic.SplitIfs

/-! # The spin lock

`SpinLock` (`src/SpinLock.h`) and threads that run `lock()`, a critical section and `unlock()`, over
and over.  Each step of a thread is one atomic operation on `lock_`, or none; the operations are
sequentially consistent.

The word and the threads stand for an abstract lock (`Tracks`): the compare-exchange that succeeds
takes it and the store of `unlock()` gives it back, and no other step changes it
(`simulates_lock`). -/

namespace Dagger

structure SpinLock where
  lock_ : UInt8
deriving DecidableEq

namespace SpinLock

def FREE : UInt8 := 0
def LOCKED : UInt8 := 1
def kMaxActiveSpin : UInt32 := 5000

/-- `std::atomic_compare_exchange_strong`. -/
def cas (s : SpinLock) (compare newVal : UInt8) : SpinLock × Bool :=
  if s.lock_ = compare then (⟨newVal⟩, true) else (s, false)

/-- The new `spinCount`.  From `kMaxActiveSpin` on the thread sleeps instead of pausing. -/
def spin_wait (spinCount : UInt32) : UInt32 :=
  if spinCount < kMaxActiveSpin then spinCount + 1 else spinCount

/-- Where a thread is. -/
inductive Pc where
  /-- In neither function, after its last `unlock()`. -/
  | idle
  /-- In `lock()`, at the compare-exchange. -/
  | tryLock (spinCount : UInt32)
  | spinning (spinCount : UInt32)
  /-- At the load that ends the inner loop. -/
  | test (spinCount : UInt32)
  /-- At the assertion of `lock()`. -/
  | acquired
  | critical
  /-- At the assertion of `unlock()`. -/
  | unlocking
  /-- At the store. -/
  | releasing
  /-- An assertion has failed. -/
  | aborted
deriving DecidableEq, Repr

/-- `assert(lock_.load() == LOCKED)` in front of `pc`. -/
def assertLocked (s : SpinLock) (pc : Pc) : Pc := if s.lock_ = LOCKED then pc else .aborted

/-- What a thread does next. -/
def next (s : SpinLock) : Pc → SpinLock × Pc
  | .idle => (s, .tryLock 0)
  | .tryLock spinCount =>
      let (s, acquired) := s.cas FREE LOCKED
      (s, if acquired then .acquired else .spinning spinCount)
  | .spinning spinCount => (s, .test (spin_wait spinCount))
  | .test spinCount => (s, if s.lock_ = LOCKED then .spinning spinCount else .tryLock spinCount)
  | .acquired => (s, s.assertLocked .critical)
  | .critical => (s, .unlocking)
  | .unlocking => (s, s.assertLocked .releasing)
  | .releasing => (⟨FREE⟩, .idle)
  | .aborted => (s, .aborted)

/-- Between the compare-exchange of `lock()` that has succeeded and the store of `unlock()`, also
where an assertion has stopped the thread. -/
def Pc.Holds : Pc → Prop
  | acquired | critical | unlocking | releasing | aborted => True
  | _ => False

variable {s : SpinLock} {pc : Pc}

theorem LOCKED_ne_FREE : LOCKED ≠ FREE := by decide

theorem assertLocked_of_locked (h : s.lock_ = LOCKED) : s.assertLocked pc = pc := if_pos h

theorem holds_assertLocked (h : pc.Holds) : (s.assertLocked pc).Holds := by
  unfold assertLocked
  split_ifs
  · exact h
  · trivial

/-- The compare-exchange succeeds on a free lock only. -/
theorem next_tryLock (s : SpinLock) (spinCount : UInt32) :
    (s.lock_ = FREE ∧ s.next (.tryLock spinCount) = (⟨LOCKED⟩, .acquired)) ∨
      s.next (.tryLock spinCount) = (s, .spinning spinCount) := by
  by_cases h : s.lock_ = FREE
  · refine Or.inl ⟨h, ?_⟩
    simp [next, cas, h]
  · refine Or.inr ?_
    simp [next, cas, h]

/-- A step of a thread leaves the word and its part alone, or takes a free lock, or frees a lock
that the thread holds. -/
theorem next_cases (s : SpinLock) (pc : Pc) :
    ((s.next pc).1 = s ∧ ((s.next pc).2.Holds ↔ pc.Holds)) ∨
      (s.lock_ = FREE ∧ (s.next pc).1.lock_ = LOCKED ∧ (s.next pc).2.Holds) ∨
      (pc.Holds ∧ (s.next pc).1.lock_ = FREE ∧ ¬ (s.next pc).2.Holds) := by
  cases pc with
  | tryLock spinCount =>
      obtain ⟨hfree, he⟩ | he := next_tryLock s spinCount
      · rw [he]
        exact Or.inr (Or.inl ⟨hfree, rfl, trivial⟩)
      · rw [he]
        exact Or.inl ⟨rfl, Iff.rfl⟩
  | test spinCount =>
      refine Or.inl ⟨rfl, iff_of_false ?_ id⟩
      show ¬ (if s.lock_ = LOCKED then Pc.spinning spinCount else .tryLock spinCount).Holds
      split_ifs
      · exact id
      · exact id
  | acquired => exact Or.inl ⟨rfl, iff_of_true (holds_assertLocked trivial) trivial⟩
  | unlocking => exact Or.inl ⟨rfl, iff_of_true (holds_assertLocked trivial) trivial⟩
  | releasing => exact Or.inr (Or.inr ⟨trivial, rfl, id⟩)
  | _ => exact Or.inl ⟨rfl, Iff.rfl⟩

/-- An assertion fails only when a thread that holds the lock finds it free. -/
theorem next_ne_aborted (hpc : pc ≠ .aborted) (hword : pc.Holds → s.lock_ = LOCKED) :
    (s.next pc).2 ≠ .aborted := by
  cases pc with
  | tryLock spinCount =>
      obtain ⟨-, he⟩ | he := next_tryLock s spinCount
      · rw [he]
        exact nofun
      · rw [he]
        exact nofun
  | test spinCount =>
      show (if s.lock_ = LOCKED then Pc.spinning spinCount else .tryLock spinCount) ≠ .aborted
      split_ifs
      · exact nofun
      · exact nofun
  | acquired =>
      show s.assertLocked .critical ≠ .aborted
      rw [assertLocked_of_locked (hword trivial)]
      exact nofun
  | unlocking =>
      show s.assertLocked .releasing ≠ .aborted
      rw [assertLocked_of_locked (hword trivial)]
      exact nofun
  | aborted => exact absurd rfl hpc
  | _ => exact nofun

end SpinLock

/-- A lock and its threads. -/
structure SpinThreads (ι : Type) where
  lock : SpinLock
  pc : ι → SpinLock.Pc

namespace SpinThreads

open Transition MutualExclusion SpinLock

variable {ι : Type} {s t : SpinThreads ι}

/-- `SpinLock()`, and no thread has called `lock()`. -/
def start (ι : Type) : SpinThreads ι := ⟨⟨FREE⟩, fun _ => .idle⟩

def Holds (s : SpinThreads ι) (i : ι) : Prop := (s.pc i).Holds

variable [DecidableEq ι]

def next (s : SpinThreads ι) (i : ι) : SpinThreads ι :=
  ⟨(s.lock.next (s.pc i)).1, Function.update s.pc i (s.lock.next (s.pc i)).2⟩

/-- The threads take their steps in any order.  An assertion that fails ends the process. -/
def system (ι : Type) [DecidableEq ι] : System (SpinThreads ι) ι where
  Init s := s = start ι
  Step s i t := (∀ j, s.pc j ≠ .aborted) ∧ t = s.next i

theorem pc_next_self (s : SpinThreads ι) (i : ι) :
    (s.next i).pc i = (s.lock.next (s.pc i)).2 := Function.update_self ..

theorem pc_next_of_ne {i j : ι} (h : j ≠ i) : (s.next i).pc j = s.pc j :=
  Function.update_of_ne h ..

/-- The threads and the word stand for a lock that is held by `holder`. -/
structure Tracks (s : SpinThreads ι) (holder : Option ι) : Prop where
  exclusive : Exclusive (fun i => (s.pc i).Holds) holder
  word : s.lock.lock_ = if holder.isSome then LOCKED else FREE
  running : ∀ i, s.pc i ≠ .aborted

variable {holder : Option ι} {i : ι}

omit [DecidableEq ι] in
theorem Tracks.locked_iff (h : s.Tracks holder) :
    s.lock.lock_ = LOCKED ↔ ∃ i, s.Holds i := by
  refine Iff.trans ?_ h.exclusive.exists_iff.symm
  rw [h.word]
  split_ifs with hsome
  · exact iff_of_true rfl hsome
  · exact iff_of_false LOCKED_ne_FREE.symm hsome

omit [DecidableEq ι] in
theorem Tracks.eq_none (h : s.Tracks holder) (hfree : s.lock.lock_ = FREE) : holder = none := by
  cases holder with
  | none => rfl
  | some i => exact absurd (h.word.symm.trans hfree) LOCKED_ne_FREE

theorem Tracks.running_next (h : s.Tracks holder) (i j : ι) : (s.next i).pc j ≠ .aborted := by
  by_cases hj : j = i
  · subst hj
    rw [pc_next_self]
    exact next_ne_aborted (h.running j) fun hholds => h.locked_iff.mpr ⟨j, hholds⟩
  · rw [pc_next_of_ne hj]
    exact h.running j

/-- One step: nothing, the lock taken, or the lock given back. -/
theorem Tracks.next (h : s.Tracks holder) (i : ι) :
    ∃ as holder', Path (MutualExclusion.lock ι) holder as holder' ∧ (s.next i).Tracks holder' := by
  obtain ⟨hword, hpart⟩ | ⟨hfree, hword, hpart⟩ | ⟨hholds, hword, hpart⟩ :=
    next_cases s.lock (s.pc i)
  · refine ⟨[], holder, .nil _, h.exclusive.move hpart, ?_, h.running_next i⟩
    show (s.lock.next (s.pc i)).1.lock_ = _
    rw [hword]
    exact h.word
  · obtain rfl := h.eq_none hfree
    exact ⟨_, some i, path_acquire i, h.exclusive.moveIn hpart, hword, h.running_next i⟩
  · obtain rfl := (h.exclusive i).mp hholds
    exact ⟨_, none, path_release i, h.exclusive.moveOut hholds hpart, hword, h.running_next i⟩

theorem tracks_start (ι : Type) : (start ι).Tracks none :=
  ⟨exclusive_none fun _ => id, rfl, fun _ => nofun⟩

/-- **The spin lock implements a lock**. -/
theorem simulates_lock (ι : Type) [DecidableEq ι] :
    Simulation (system ι) (MutualExclusion.lock ι) Tracks where
  init := by
    rintro _ rfl
    exact ⟨none, rfl, tracks_start ι⟩
  step := by
    rintro s i _ holder h ⟨-, rfl⟩
    exact h.next i

/-- **Mutual exclusion**: at most one thread is between its compare-exchange and its store, the word
is `LOCKED` exactly when there is one, and no assertion has failed. -/
theorem mutual_exclusion (h : Reachable (system ι) s) :
    (∀ i j, s.Holds i → s.Holds j → i = j) ∧ (s.lock.lock_ = LOCKED ↔ ∃ i, s.Holds i) ∧
      ∀ i, s.pc i ≠ .aborted := by
  obtain ⟨holder, -, htracks⟩ := (simulates_lock ι).reachable h
  exact ⟨fun _ _ => htracks.exclusive.eq, htracks.locked_iff, htracks.running⟩

/-- The threads may be scheduled in every order. -/
theorem path_schedule : ∀ (is : List ι) {s : SpinThreads ι}, Reachable (system ι) s →
    Path (system ι) s is (is.foldl SpinThreads.next s)
  | [], s, _ => .nil s
  | i :: is, s, h => by
      obtain ⟨holder, -, htracks⟩ := (simulates_lock ι).reachable h
      have hstep : (system ι).Step s i (s.next i) := ⟨htracks.running, rfl⟩
      exact .cons hstep (path_schedule is (h.step hstep))

/-- One thread is in its critical section while another spins. -/
def contended : SpinThreads ℕ := [0, 0, 0, 1, 1].foldl SpinThreads.next (start ℕ)

theorem mutual_exclusion_contended : contended.pc 0 = .critical ∧ contended.pc 1 = .spinning 0 ∧
    (∀ i j, contended.Holds i → contended.Holds j → i = j) ∧
    (contended.lock.lock_ = LOCKED ↔ ∃ i, contended.Holds i) ∧ ∀ i, contended.pc i ≠ .aborted := by
  have hstart : Reachable (system ℕ) (start ℕ) := .init rfl
  exact ⟨rfl, rfl, mutual_exclusion ((path_schedule _ hstart).reachable hstart)⟩

end SpinThreads

end Dagger
