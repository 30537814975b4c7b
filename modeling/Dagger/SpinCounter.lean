import Dagger.SpinLiveness
import Mathlib.Algebra.BigOperators.Group.Finset.Basic
import Mathlib.Algebra.Order.BigOperators.Group.Finset
import Mathlib.Data.Prod.Lex
import Mathlib.Tactic.Abel
import Mathlib.Tactic.Linarith

/-! # A counter under the spin lock

`threadFunc` of `tests/spinLock_test.cpp`: a thread takes the lock, increments the global `i` a
thousand times and gives the lock back.  An increment is a load and a store, between which other
threads may step.  `i` is an `int`, whose overflow is undefined: the results are for as many threads
as it can count for, and say that it never leaves its range (`Counting.le_int_max`).

No increment is lost (`increments_kept`), and when no thread stops on its way all of them return
(`all_return`): the two threads of the test `Basic` leave 2000 in `i`, and not the 20000 that it
asks for. -/

namespace Dagger

/-- Where a thread is in its loop. -/
structure CounterLoop where
  k : ℕ := 0
  /-- What `i++` has loaded and not yet stored. -/
  loaded : Option ℤ := none

/-- The largest `int`. -/
abbrev INT_MAX : ℕ := 2147483647

/-- The lock, its threads and the counter. -/
structure SpinCounter (ι : Type) where
  threads : SpinThreads ι
  /-- An `int` as long as it is at most `INT_MAX`. -/
  i : ℤ
  loop : ι → CounterLoop

namespace SpinCounter

open Transition SpinLock

variable {ι : Type} [DecidableEq ι] {s u : SpinCounter ι} {t j : ι}

def next (s : SpinCounter ι) (t : ι) : SpinCounter ι :=
  match s.threads.pc t with
  | .critical =>
      match (s.loop t).loaded with
      | some v => { s with i := v + 1, loop := Function.update s.loop t { k := (s.loop t).k + 1 } }
      | none =>
          if (s.loop t).k < 1000 then
            { s with loop := Function.update s.loop t { s.loop t with loaded := some s.i } }
          else { s with threads := s.threads.next t }
  | _ => { s with threads := s.threads.next t }

/-- `threadFunc` has returned. -/
def Returned (s : SpinCounter ι) (t : ι) : Prop := s.threads.pc t = .idle ∧ (s.loop t).k = 1000

def system (ι : Type) [DecidableEq ι] : System (SpinCounter ι) ι where
  Init s := s = ⟨.start ι, 0, fun _ => {}⟩
  Step s t u := (∀ j, s.threads.pc j ≠ .aborted) ∧ ¬ s.Returned t ∧ u = s.next t

/-! ### The steps -/

/-- A thread loads, or stores, or takes a step of the lock. -/
inductive Stepped (s : SpinCounter ι) (t : ι) : SpinCounter ι → Prop
  | load (hpc : s.threads.pc t = .critical) (hl : (s.loop t).loaded = none)
      (hk : (s.loop t).k < 1000) :
      Stepped s t { s with loop := Function.update s.loop t { s.loop t with loaded := some s.i } }
  | store {v : ℤ} (hpc : s.threads.pc t = .critical) (hl : (s.loop t).loaded = some v) :
      Stepped s t { s with
        i := v + 1
        loop := Function.update s.loop t { k := (s.loop t).k + 1 } }
  | lock (hpc : s.threads.pc t = .critical → (s.loop t).loaded = none ∧ 1000 ≤ (s.loop t).k) :
      Stepped s t { s with threads := s.threads.next t }

theorem stepped_of_step (hs : (system ι).Step s t u) : Stepped s t u := by
  obtain ⟨-, -, rfl⟩ := hs
  unfold next
  split
  next hpc =>
      split
      next v hl => exact .store hpc hl
      next hl =>
          split_ifs with hk
          · exact .load hpc hl hk
          · exact .lock fun _ => ⟨hl, Nat.not_lt.mp hk⟩
  next hpc => exact .lock fun h => absurd h hpc

/-- The loads and stores do not concern the lock. -/
theorem simulates_threads (ι : Type) [DecidableEq ι] :
    Simulation (system ι) (SpinThreads.system ι) fun s threads => threads = s.threads where
  init := by
    rintro _ rfl
    exact ⟨.start ι, rfl, rfl⟩
  step := by
    rintro s t u _ rfl hs
    cases stepped_of_step hs with
    | load => exact ⟨[], _, .nil _, rfl⟩
    | store => exact ⟨[], _, .nil _, rfl⟩
    | lock => exact ⟨[t], _, .cons ⟨hs.1, rfl⟩ (.nil _), rfl⟩

theorem tracks_of_reachable (h : Reachable (system ι) s) : ∃ holder, s.threads.Tracks holder := by
  obtain ⟨threads, hr, rfl⟩ := (simulates_threads ι).reachable h
  obtain ⟨holder, -, htracks⟩ := (SpinThreads.simulates_lock ι).reachable hr
  exact ⟨holder, htracks⟩

/-! ### The loops -/

/-- How many increments a thread has made by the time it is at `pc`. -/
def Fits (k : ℕ) : Pc → Prop
  | .idle => k = 0 ∨ k = 1000
  | .tryLock _ | .spinning _ | .test _ | .acquired => k = 0
  | .critical => k ≤ 1000
  | .unlocking | .releasing => k = 1000
  | .aborted => False

/-- The counter holds the increments that were stored, and what a thread has loaded is still
there. -/
structure Counting [Fintype ι] (s : SpinCounter ι) : Prop where
  fits : ∀ t, Fits (s.loop t).k (s.threads.pc t)
  loaded : ∀ t v, (s.loop t).loaded = some v →
    v = s.i ∧ s.threads.pc t = .critical ∧ (s.loop t).k < 1000
  counted : s.i = ∑ t, ((s.loop t).k : ℤ)

theorem fits_next {lock : SpinLock} {pc : Pc} {k : ℕ} (h : Fits k pc)
    (hidle : pc = .idle → k ≠ 1000) (hcritical : pc = .critical → 1000 ≤ k)
    (hlocked : pc.Holds → lock.lock_ = LOCKED) : Fits k (lock.next pc).2 := by
  cases pc with
  | idle => exact h.resolve_right (hidle rfl)
  | tryLock spinCount =>
      obtain ⟨-, he⟩ | he := next_tryLock lock spinCount
      · rw [he]
        exact h
      · rw [he]
        exact h
  | test spinCount =>
      show Fits k (if lock.lock_ = LOCKED then Pc.spinning spinCount else .tryLock spinCount)
      split_ifs
      · exact h
      · exact h
  | acquired =>
      simp only [SpinLock.next, assertLocked_of_locked (hlocked trivial)]
      exact Nat.le_trans (Nat.le_of_eq h) (Nat.zero_le _)
  | critical => exact Nat.le_antisymm h (hcritical rfl)
  | unlocking =>
      simp only [SpinLock.next, assertLocked_of_locked (hlocked trivial)]
      exact h
  | releasing => exact Or.inr h
  | _ => exact h

section Sums

variable [Fintype ι] {M : Type} [AddCommMonoid M] {f g : ι → M}

/-- Two sums that differ in one place. -/
theorem sum_add_eq (h : ∀ j, j ≠ t → f j = g j) : (∑ j, f j) + g t = (∑ j, g j) + f t := by
  have herase : ∑ j ∈ Finset.univ.erase t, f j = ∑ j ∈ Finset.univ.erase t, g j :=
    Finset.sum_congr rfl fun j hj => h j (Finset.ne_of_mem_erase hj)
  rw [← Finset.add_sum_erase Finset.univ f (Finset.mem_univ t),
    ← Finset.add_sum_erase Finset.univ g (Finset.mem_univ t), herase]
  abel

end Sums

variable [Fintype ι]

theorem counting_step (hx : ∃ holder, s.threads.Tracks holder) (h : s.Counting)
    (hs : (system ι).Step s t u) : u.Counting := by
  obtain ⟨holder, htracks⟩ := hx
  have hret : ¬ s.Returned t := hs.2.1
  cases stepped_of_step hs with
  | load hpc hl hk =>
      refine ⟨fun j => ?_, fun j v hv => ?_, ?_⟩
      · by_cases hj : j = t
        · subst hj
          simp only [Function.update_self]
          exact h.fits j
        · simp only [Function.update_of_ne hj]
          exact h.fits j
      · by_cases hj : j = t
        · subst hj
          simp only [Function.update_self, Option.some.injEq] at hv ⊢
          exact ⟨hv.symm, hpc, hk⟩
        · simp only [Function.update_of_ne hj] at hv ⊢
          exact h.loaded j v hv
      · refine h.counted.trans (Finset.sum_congr rfl fun j _ => ?_)
        by_cases hj : j = t
        · subst hj
          simp only [Function.update_self]
        · simp only [Function.update_of_ne hj]
  | @store v hpc hl =>
      obtain ⟨rfl, -, hk⟩ := h.loaded t v hl
      refine ⟨fun j => ?_, fun j v hv => ?_, ?_⟩
      · by_cases hj : j = t
        · subst hj
          simp only [Function.update_self, hpc]
          exact hk
        · simp only [Function.update_of_ne hj]
          exact h.fits j
      · by_cases hj : j = t
        · subst hj
          simp only [Function.update_self] at hv
          cases hv
        · -- no other thread has the lock
          simp only [Function.update_of_ne hj] at hv
          obtain ⟨-, hcrit, -⟩ := h.loaded j v hv
          exact absurd (htracks.exclusive.eq (by rw [hcrit]; trivial) (by rw [hpc]; trivial)) hj
      · have hsum := sum_add_eq (t := t) (f := fun j =>
          ((Function.update s.loop t { k := (s.loop t).k + 1 } j).k : ℤ))
          (g := fun j => ((s.loop j).k : ℤ)) fun j hj => by
            simp only [Function.update_of_ne hj]
        simp only [Function.update_self, ← h.counted] at hsum
        show s.i + 1 = _
        push_cast at hsum
        linarith
  | lock hcritical =>
      refine ⟨fun j => ?_, fun j v hv => ?_, h.counted⟩
      · show Fits (s.loop j).k ((s.threads.next t).pc j)
        by_cases hj : j = t
        · subst hj
          rw [SpinThreads.pc_next_self]
          refine fits_next (h.fits j) (fun hi hk => hret ⟨hi, hk⟩) (fun hc => (hcritical hc).2)
            fun hholds => htracks.locked_iff.mpr ⟨j, hholds⟩
        · rw [SpinThreads.pc_next_of_ne hj]
          exact h.fits j
      · obtain ⟨hi, hc, hk⟩ := h.loaded j v hv
        refine ⟨hi, ?_, hk⟩
        have hj : j ≠ t := by
          rintro rfl
          rw [(hcritical hc).1] at hv
          cases hv
        show (s.threads.next t).pc j = .critical
        rw [SpinThreads.pc_next_of_ne hj]
        exact hc

theorem counting_of_reachable (h : Reachable (system ι) s) : s.Counting := by
  refine h.invariant_of (fun _ => tracks_of_reachable) ?_ (fun _ _ _ => counting_step)
  rintro _ rfl
  refine ⟨fun t => Or.inl rfl, fun t v hv => (by cases hv), ?_⟩
  simp

omit [DecidableEq ι] in
/-- A thousand increments for each thread. -/
theorem Counting.total (h : s.Counting) (hall : ∀ t, s.Returned t) :
    s.i = 1000 * Fintype.card ι := by
  rw [h.counted, Finset.sum_congr rfl fun t _ => by rw [(hall t).2], Finset.sum_const,
    Finset.card_univ, nsmul_eq_mul]
  push_cast
  exact mul_comm _ _

omit [DecidableEq ι] in
/-- The counter stays in its range if that is wide enough for a thousand for each thread. -/
theorem Counting.le_int_max (h : s.Counting) (hint : 1000 * Fintype.card ι ≤ INT_MAX) :
    s.i ≤ INT_MAX := by
  have hk : ∀ t, (s.loop t).k ≤ 1000 := by
    intro t
    have hfits := h.fits t
    cases hpc : s.threads.pc t with
    | aborted =>
        rw [hpc] at hfits
        exact hfits.elim
    | _ =>
        rw [hpc] at hfits
        simp only [Fits] at hfits
        omega
  calc s.i = ∑ t, ((s.loop t).k : ℤ) := h.counted
    _ ≤ ∑ _t : ι, (1000 : ℤ) := Finset.sum_le_sum fun t _ => by exact_mod_cast hk t
    _ = 1000 * Fintype.card ι := by
        rw [Finset.sum_const, Finset.card_univ, nsmul_eq_mul]
        exact mul_comm _ _
    _ ≤ INT_MAX := by exact_mod_cast hint

/-- **No increment is lost**: in every reachable state the counter is the number of increments that
the threads have made, which is an `int`, and when all threads have returned it is a thousand for
each. -/
theorem increments_kept (hint : 1000 * Fintype.card ι ≤ INT_MAX) (h : Reachable (system ι) s) :
    s.i = ∑ t, ((s.loop t).k : ℤ) ∧ s.i ≤ INT_MAX ∧
      ((∀ t, s.Returned t) → s.i = 1000 * Fintype.card ι) :=
  have hcounting := counting_of_reachable h
  ⟨hcounting.counted, hcounting.le_int_max hint, hcounting.total⟩

/-- The first increment of the first thread, while the second one waits. -/
def firstIncrement : SpinCounter Bool :=
  [false, false, true, true, false, false, false].foldl next ⟨.start Bool, 0, fun _ => {}⟩

theorem reachable_firstIncrement : Reachable (system Bool) firstIncrement := by
  have hstep : ∀ {s : SpinCounter Bool} {t : Bool}, Reachable (system Bool) s →
      (∀ j, s.threads.pc j ≠ .aborted) → (s.loop t).k ≠ 1000 → Reachable (system Bool) (s.next t) :=
    fun h hrun hk => h.step ⟨hrun, fun hret => hk hret.2, rfl⟩
  have h₀ : Reachable (system Bool) ⟨.start Bool, 0, fun _ => {}⟩ := .init rfl
  have h₁ := hstep (t := false) h₀ (by decide) (by decide)
  have h₂ := hstep (t := false) h₁ (by decide) (by decide)
  have h₃ := hstep (t := true) h₂ (by decide) (by decide)
  have h₄ := hstep (t := true) h₃ (by decide) (by decide)
  have h₅ := hstep (t := false) h₄ (by decide) (by decide)
  have h₆ := hstep (t := false) h₅ (by decide) (by decide)
  exact hstep (t := false) h₆ (by decide) (by decide)

theorem increments_kept_first : firstIncrement.i = 1 ∧
    firstIncrement.i = ∑ t, ((firstIncrement.loop t).k : ℤ) ∧ firstIncrement.i ≤ INT_MAX := by
  obtain ⟨hcounted, hle, -⟩ := increments_kept (by decide) reachable_firstIncrement
  exact ⟨rfl, hcounted, hle⟩

/-! ### The way to the end -/

omit [DecidableEq ι] [Fintype ι] in
/-- The steps that a thread has yet to take, without those that it spins. -/
def toReturn (pc : Pc) (loop : CounterLoop) : ℕ :=
  match pc with
  | .idle => if loop.k = 1000 then 0 else 2006
  | .tryLock _ | .spinning _ | .test _ => 2005
  | .acquired => 2004
  | .critical => 2 * (1000 - loop.k) + 3 - if loop.loaded.isSome then 1 else 0
  | .unlocking => 2
  | .releasing => 1
  | .aborted => 0

/-- What is left to do; while the lock is free, it counts how far the threads are from trying it. -/
def rank (s : SpinCounter ι) : ℕ ×ₗ ℕ :=
  toLex (∑ t, toReturn (s.threads.pc t) (s.loop t),
    if s.threads.lock.lock_ = FREE then ∑ t, (s.threads.pc t).toTry else 0)

/-- Thread `t` has done more of its work. -/
theorem rank_lt_of_toReturn
    (hne : ∀ j, j ≠ t → u.threads.pc j = s.threads.pc j ∧ u.loop j = s.loop j)
    (hlt : toReturn (u.threads.pc t) (u.loop t) < toReturn (s.threads.pc t) (s.loop t)) :
    rank u < rank s := by
  refine Prod.Lex.toLex_lt_toLex.mpr (Or.inl ?_)
  refine Finset.sum_lt_sum (fun j _ => ?_) ⟨t, Finset.mem_univ t, hlt⟩
  by_cases hj : j = t
  · subst hj
    exact hlt.le
  · obtain ⟨hpc, hloop⟩ := hne j hj
    rw [hpc, hloop]

/-- Thread `t` has got nearer to the free lock. -/
theorem rank_lt_of_toTry (hne : ∀ j, j ≠ t → u.threads.pc j = s.threads.pc j)
    (hloop : u.loop = s.loop) (hlock : u.threads.lock = s.threads.lock)
    (hfree : s.threads.lock.lock_ = FREE)
    (heq : toReturn (u.threads.pc t) (u.loop t) = toReturn (s.threads.pc t) (s.loop t))
    (hlt : (u.threads.pc t).toTry < (s.threads.pc t).toTry) : rank u < rank s := by
  refine Prod.Lex.toLex_lt_toLex.mpr (Or.inr ⟨Finset.sum_congr rfl fun j _ => ?_, ?_⟩)
  · by_cases hj : j = t
    · subst hj
      exact heq
    · rw [hne j hj, hloop]
  · show (if u.threads.lock.lock_ = FREE then _ else 0) <
      if s.threads.lock.lock_ = FREE then _ else 0
    rw [hlock, if_pos hfree, if_pos hfree]
    refine Finset.sum_lt_sum (fun j _ => ?_) ⟨t, Finset.mem_univ t, hlt⟩
    by_cases hj : j = t
    · subst hj
      exact hlt.le
    · rw [hne j hj]

omit [DecidableEq ι] [Fintype ι] in
theorem toReturn_of_tries {pc : Pc} (loop : CounterLoop) (h : pc.Tries) :
    toReturn pc loop = 2005 := by
  cases pc with
  | tryLock spinCount => rfl
  | spinning spinCount => rfl
  | test spinCount => rfl
  | _ => exact h.elim

omit [DecidableEq ι] [Fintype ι] in
theorem not_holds_of_tries {pc : Pc} (h : pc.Tries) : ¬ pc.Holds := by
  cases pc with
  | tryLock spinCount => exact id
  | spinning spinCount => exact id
  | test spinCount => exact id
  | _ => exact h.elim

omit [DecidableEq ι] [Fintype ι] in
/-- Spinning leaves the lock as it is. -/
theorem lock_of_tries {lock : SpinLock} {pc : Pc} (h : pc.Tries) (hnext : (lock.next pc).2.Tries) :
    (lock.next pc).1 = lock := by
  cases pc with
  | tryLock spinCount =>
      obtain ⟨-, he⟩ | he := next_tryLock lock spinCount
      · rw [he] at hnext
        exact hnext.elim
      · rw [he]
  | spinning spinCount => rfl
  | test spinCount => rfl
  | _ => exact h.elim

omit [DecidableEq ι] [Fintype ι] in
/-- A step of the lock that is not one of a thread that spins. -/
theorem toReturn_next {lock : SpinLock} {pc : Pc} {loop : CounterLoop} (hfits : Fits loop.k pc)
    (htries : ¬ pc.Tries) (hidle : pc = .idle → loop.k ≠ 1000)
    (hcritical : pc = .critical → loop.loaded = none ∧ 1000 ≤ loop.k)
    (hlocked : pc.Holds → lock.lock_ = LOCKED) :
    toReturn (lock.next pc).2 loop < toReturn pc loop := by
  cases pc with
  | idle =>
      unfold toReturn
      rw [if_neg (hidle rfl)]
      exact Nat.lt_succ_self 2005
  | acquired =>
      have hk : loop.k = 0 := hfits
      simp only [SpinLock.next, assertLocked_of_locked (hlocked trivial), toReturn, hk]
      split_ifs <;> decide
  | critical =>
      obtain ⟨hl, hk⟩ := hcritical rfl
      simp only [SpinLock.next, toReturn, hl, Option.isSome_none, Bool.false_eq_true, if_false]
      omega
  | unlocking =>
      simp only [SpinLock.next, assertLocked_of_locked (hlocked trivial), toReturn]
      exact Nat.lt_succ_self 1
  | releasing =>
      have hk : loop.k = 1000 := hfits
      simp only [SpinLock.next, toReturn, hk, if_true]
      exact Nat.zero_lt_one
  | aborted => exact hfits.elim
  | _ => exact absurd trivial htries

/-- A step brings a thread nearer to its end, or to the free lock, or the thread spins while the
lock is taken. -/
theorem rank_step (hx : ∃ holder, s.threads.Tracks holder) (h : s.Counting)
    (hs : (system ι).Step s t u) : rank u < rank s ∨
      (s.threads.pc t).Tries ∧ s.threads.lock.lock_ ≠ FREE ∧ rank u = rank s := by
  obtain ⟨holder, htracks⟩ := hx
  have hret : ¬ s.Returned t := hs.2.1
  cases stepped_of_step hs with
  | load hpc hl hk =>
      refine Or.inl (rank_lt_of_toReturn (t := t) (fun j hj => ⟨rfl, ?_⟩) ?_)
      · exact Function.update_of_ne hj ..
      · simp only [Function.update_self, toReturn, hpc, hl, Option.isSome_some, Option.isSome_none]
        simp
  | @store v hpc hl =>
      obtain ⟨-, -, hk⟩ := h.loaded t v hl
      refine Or.inl (rank_lt_of_toReturn (t := t) (fun j hj => ⟨rfl, ?_⟩) ?_)
      · exact Function.update_of_ne hj ..
      · simp only [Function.update_self, toReturn, hpc, hl, Option.isSome_some, Option.isSome_none,
          if_true, Bool.false_eq_true, if_false]
        omega
  | lock hcritical =>
      have hne : ∀ j, j ≠ t → (s.threads.next t).pc j = s.threads.pc j :=
        fun j hj => SpinThreads.pc_next_of_ne hj
      have hpc : (s.threads.next t).pc t = (s.threads.lock.next (s.threads.pc t)).2 :=
        SpinThreads.pc_next_self ..
      by_cases htries : (s.threads.pc t).Tries
      · by_cases hnext : (s.threads.lock.next (s.threads.pc t)).2.Tries
        · have hlock := lock_of_tries htries hnext
          have heq : toReturn ((s.threads.next t).pc t) (s.loop t) =
              toReturn (s.threads.pc t) (s.loop t) := by
            rw [hpc, toReturn_of_tries _ hnext, toReturn_of_tries _ htries]
          by_cases hfree : s.threads.lock.lock_ = FREE
          · refine Or.inl (rank_lt_of_toTry (t := t) hne rfl hlock hfree heq ?_)
            rcases next_of_tries hfree htries with hacq | ⟨-, hlt⟩
            · rw [hacq] at hnext
              exact hnext.elim
            · rw [hpc]
              exact hlt
          · refine Or.inr ⟨htries, hfree, ?_⟩
            refine congrArg toLex (Prod.ext (Finset.sum_congr rfl fun j _ => ?_) ?_)
            · by_cases hj : j = t
              · subst hj
                exact heq
              · rw [hne j hj]
            · show (if (s.threads.lock.next (s.threads.pc t)).1.lock_ = FREE then _ else 0) =
                if _ then _ else 0
              rw [hlock, if_neg hfree, if_neg hfree]
        · have hacq := (tries_next htries).resolve_right hnext
          refine Or.inl (rank_lt_of_toReturn (t := t) (fun j hj => ⟨hne j hj, rfl⟩) ?_)
          rw [hpc, hacq, toReturn_of_tries _ htries]
          exact Nat.lt_succ_self 2004
      · refine Or.inl (rank_lt_of_toReturn (t := t) (fun j hj => ⟨hne j hj, rfl⟩) ?_)
        rw [hpc]
        exact toReturn_next (h.fits t) htries (fun hi hk => hret ⟨hi, hk⟩) hcritical
          fun hholds => htracks.locked_iff.mpr ⟨t, hholds⟩

/-! ### Runs -/

/-- No thread stops before it returns. -/
def Fair {ι : Type} [DecidableEq ι] (r : Run (system ι).stuttering) : Prop :=
  ∀ t, r.WeaklyFair (fun s => ¬ s.Returned t) fun _ a => a = some t

section Runs

variable {r : Run (system ι).stuttering}

theorem rank_run (r : Run (system ι).stuttering) (n : ℕ) :
    (r.act n = none ∧ r.st (n + 1) = r.st n) ∨ ∃ t, r.act n = some t ∧
      (rank (r.st (n + 1)) < rank (r.st n) ∨
        ((r.st n).threads.pc t).Tries ∧ (r.st n).threads.lock.lock_ ≠ FREE ∧
          rank (r.st (n + 1)) = rank (r.st n)) := by
  rcases r.step_cases n with hrest | ⟨t, ha, hs⟩
  · exact Or.inl hrest
  · have hr := (r.reachable n).of_stuttering
    exact Or.inr ⟨t, ha, rank_step (tracks_of_reachable hr) (counting_of_reachable hr) hs⟩

omit [Fintype ι] in
/-- A thread stays where it is until its own step. -/
theorem pc_of_ne {n : ℕ} (h : r.act n ≠ some t) :
    (r.st (n + 1)).threads.pc t = (r.st n).threads.pc t ∧
      (r.st (n + 1)).loop t = (r.st n).loop t := by
  rcases r.step_cases n with ⟨-, hst⟩ | ⟨j, ha, hs⟩
  · rw [hst]
    exact ⟨rfl, rfl⟩
  · have htj : t ≠ j := by
      rintro rfl
      exact h ha
    generalize r.st (n + 1) = u at hs
    cases stepped_of_step hs with
    | load => exact ⟨rfl, Function.update_of_ne htj ..⟩
    | store => exact ⟨rfl, Function.update_of_ne htj ..⟩
    | lock => exact ⟨SpinThreads.pc_next_of_ne htj, rfl⟩

omit [Fintype ι] in
/-- A thread that has not returned takes its next step. -/
theorem exists_act (hfair : Fair r) {n : ℕ} (h : ¬ (r.st n).Returned t) :
    ∃ m, n ≤ m ∧ (r.st m).threads.pc t = (r.st n).threads.pc t ∧ r.act m = some t := by
  let p := (r.st n).threads.pc t
  let l := (r.st n).loop t
  have hle : ∀ s : SpinCounter ι, s.threads.pc t = p ∧ s.loop t = l → ¬ s.Returned t := by
    rintro s ⟨hp, hl⟩ ⟨hidle, hk⟩
    rw [hp] at hidle
    rw [hl] at hk
    exact h ⟨hidle, hk⟩
  obtain ⟨m, hm, ⟨hp, -⟩, ha⟩ := ((hfair t).mono hle).taken (fun m hm hnot => by
    obtain ⟨hpc, hloop⟩ := pc_of_ne hnot
    exact ⟨hpc.trans hm.1, hloop.trans hm.2⟩) ⟨rfl, rfl⟩
  exact ⟨m, hm, hp, ha⟩

/-- As long as a thread has not returned, some thread comes nearer to its end. -/
theorem exists_nearer (hfair : Fair r) {n : ℕ} (h : ¬ (r.st n).Returned t) :
    ∃ m, n ≤ m ∧ rank (r.st (m + 1)) < rank (r.st m) := by
  by_contra hnever
  push Not at hnever
  by_cases hfree : (r.st n).threads.lock.lock_ = FREE
  · -- nobody takes a step
    have hrest : ∀ m, n ≤ m → r.st m = r.st n := by
      intro m hm
      induction hm with
      | refl => rfl
      | @step m hm ih =>
          rcases rank_run r m with ⟨-, hst⟩ | ⟨j, -, hlt | ⟨-, hne, -⟩⟩
          · exact hst.trans ih
          · exact absurd (hnever m hm) hlt.not_ge
          · rw [ih] at hne
            exact absurd hfree hne
    obtain ⟨m, hm, -, ha⟩ := exists_act hfair h
    rcases rank_run r m with ⟨hnone, -⟩ | ⟨j, -, hlt | ⟨-, hne, -⟩⟩
    · rw [hnone] at ha
      cases ha
    · exact hlt.not_ge (hnever m hm)
    · rw [hrest m hm] at hne
      exact hne hfree
  · -- the thread that has the lock takes its step
    obtain ⟨holder, htracks⟩ := tracks_of_reachable (r.reachable n).of_stuttering
    have hsome : holder.isSome = true := by
      by_contra hnone
      exact hfree (htracks.word.trans (if_neg hnone))
    obtain ⟨j, rfl⟩ := Option.isSome_iff_exists.mp hsome
    have hj : ((r.st n).threads.pc j).Holds := (htracks.exclusive j).mpr rfl
    have hret : ¬ (r.st n).Returned j := by
      rintro ⟨hidle, -⟩
      rw [hidle] at hj
      exact hj
    obtain ⟨m, hm, hpc, ha⟩ := exists_act hfair hret
    rcases rank_run r m with ⟨hnone, -⟩ | ⟨k, ha', hlt | ⟨htries, -, -⟩⟩
    · rw [hnone] at ha
      cases ha
    · exact hlt.not_ge (hnever m hm)
    · rw [ha'] at ha
      obtain rfl := Option.some.inj ha
      rw [hpc] at htries
      exact not_holds_of_tries htries hj

end Runs

/-- **All threads return**: in every run in which no thread stops on its way the counter stays an
`int`, all of them return, and the counter is then a thousand for each. -/
theorem all_return (hint : 1000 * Fintype.card ι ≤ INT_MAX) (r : Run (system ι).stuttering)
    (hfair : Fair r) :
    (∀ n, (r.st n).i ≤ INT_MAX) ∧
      ∃ m, (∀ t, (r.st m).Returned t) ∧ (r.st m).i = 1000 * Fintype.card ι := by
  have hcounting : ∀ n, (r.st n).Counting := fun n =>
    counting_of_reachable (r.reachable n).of_stuttering
  refine ⟨fun n => (hcounting n).le_int_max hint, ?_⟩
  have hle : ∀ m, rank (r.st (m + 1)) ≤ rank (r.st m) := by
    intro m
    rcases rank_run r m with ⟨-, hst⟩ | ⟨t, -, hlt | ⟨-, -, heq⟩⟩
    · rw [hst]
    · exact hlt.le
    · exact heq.le
  have hdrop : ∀ m, 0 ≤ m → ∃ j, m ≤ j ∧ ((∀ t, (r.st j).Returned t) ∨
      rank (r.st (j + 1)) < rank (r.st j)) := by
    intro m _
    by_cases hall : ∀ t, (r.st m).Returned t
    · exact ⟨m, le_refl m, Or.inl hall⟩
    · obtain ⟨t, ht⟩ := not_forall.mp hall
      obtain ⟨j, hj, hlt⟩ := exists_nearer hfair ht
      exact ⟨j, hj, Or.inr hlt⟩
  obtain ⟨m, -, hall⟩ := eventually_of_rank (fun m => rank (r.st m)) (fun m _ _ => hle m) hdrop
  exact ⟨m, hall, (hcounting m).total hall⟩

/-- The two threads of the test take turns. -/
theorem exists_fair : ∃ r : Run (system Bool).stuttering, Fair r := by
  let turn : ℕ → Bool := fun n => n % 2 = 0
  obtain ⟨r, hr⟩ := exists_run (S := (system Bool).stuttering)
    (I := fun _ s => Reachable (system Bool) s)
    (C := fun n s a => ¬ s.Returned (turn n) → a = some (turn n)) rfl (.init rfl) fun n s h => by
      by_cases hret : s.Returned (turn n)
      · exact ⟨none, s, rfl, fun hnot => absurd hret hnot, h⟩
      · obtain ⟨holder, htracks⟩ := tracks_of_reachable h
        have hs : (system Bool).Step s (turn n) (s.next (turn n)) := ⟨htracks.running, hret, rfl⟩
        exact ⟨some (turn n), _, hs, fun _ => rfl, h.step hs⟩
  refine ⟨r, fun t n hn => ?_⟩
  have hturn : ∃ m, n ≤ m ∧ turn m = t := by
    cases t with
    | false => exact ⟨2 * n + 1, by omega, decide_eq_false (by omega)⟩
    | true => exact ⟨2 * n, by omega, decide_eq_true (by omega)⟩
  obtain ⟨m, hm, ht⟩ := hturn
  refine ⟨m, hm, ?_⟩
  rw [← ht] at hn ⊢
  exact (hr m).2 (hn m hm)

/-- Not 20000. -/
theorem all_return_two : ∃ (r : Run (system Bool).stuttering) (m : ℕ),
    (∀ t, (r.st m).Returned t) ∧ (r.st m).i = 2000 := by
  obtain ⟨r, hfair⟩ := exists_fair
  obtain ⟨-, m, hall, hi⟩ := all_return (by decide) r hfair
  exact ⟨r, m, hall, hi⟩

end SpinCounter

end Dagger
