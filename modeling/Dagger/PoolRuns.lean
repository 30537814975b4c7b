import Dagger.AcceptErrors
import Dagger.FairRuns
import Dagger.RoundRobin
import Mathlib.Algebra.BigOperators.Group.List.Basic
import Mathlib.Algebra.Order.BigOperators.Group.List

/-! # Runs of the pool

The runs in which threads are started by one call.  `getNextPool` is fair: up to the wrap of
`nextIndex_`, no loop gets more than one pick more than another (`picks_balanced`).  And
`setHelperThreadsNumAndStart` returns, when its threads run and no thread stops on its way, with
every thread in `loop.start()` (`start_returns`). -/

namespace Dagger

open Transition

namespace EventLoopPool

variable {MAX_THREADS : UInt64} {s t : EventLoopPool} {a : Act} {loops : List PooledLoop}

/-! ### Who is picked -/

/-- The loop that a call of `getNextPool` returns. -/
def picked (s : EventLoopPool) : Act → List PooledLoop
  | .getNextPool => s.getNextPool.toList
  | _ => []

/-- The runs with the loops picked so far. -/
def picking (MAX_THREADS : UInt64) : System (EventLoopPool × List PooledLoop) Act where
  Init p := ((system MAX_THREADS).guarded FirstStart).Init p.1 ∧ p.2 = []
  Step p a q := ((system MAX_THREADS).guarded FirstStart).Step p.1 a q.1 ∧
    q.2 = p.2 ++ p.1.picked a

/-- The helper loops were picked in turn, `K` times. -/
def InTurn (s : EventLoopPool) (loops : List PooledLoop) : Prop :=
  ∃ K ≤ loops.length, s.nextIndex.toNat = K % 2 ^ 64 ∧ (s.threads = [] → K = 0) ∧
    ∀ i, loops.count (.helper i) = RoundRobin.picks (2 ^ 64) s.realSize.toNat i K

theorem started_of_picking {p : EventLoopPool × List PooledLoop}
    (h : Reachable (picking MAX_THREADS) p) :
    Reachable ((system MAX_THREADS).guarded FirstStart) p.1 := by
  induction h with
  | init hi => exact .init hi.1
  | step _ hs ih => exact ih.step hs.1

/-- Steps that pick nothing. -/
theorem InTurn.keep (h : s.InTurn loops) (hindex : t.nextIndex = s.nextIndex)
    (hthreads : t.threads = [] → s.threads = [])
    (hsize : t.realSize = s.realSize ∨ s.threads = []) : t.InTurn (loops ++ []) := by
  rw [List.append_nil]
  obtain ⟨K, hK, hnext, hzero, hcount⟩ := h
  refine ⟨K, hK, by rw [hindex]; exact hnext, fun ht => hzero (hthreads ht), fun i => ?_⟩
  rcases hsize with hsize | hs
  · rw [hsize]
    exact hcount i
  · have hnone := hcount i
    rw [hzero hs, RoundRobin.picks_zero] at hnone ⊢
    exact hnone

theorem setPc_eq_nil {k : ℕ} {pc : WorkerPc} (h : s.setPc k pc = []) : s.threads = [] := by
  have hlen := length_setPc (s := s) k pc
  rw [h] at hlen
  exact List.eq_nil_of_length_eq_zero hlen.symm

theorem getNextPool_of_started (h : s.Started) (hne : s.threads ≠ []) :
    s.getNextPool = some (.helper (s.nextIndex % s.realSize).toNat) := by
  unfold getNextPool
  have hlen := List.length_pos_iff.mpr hne
  have hsize := h.length_le
  have hpos : s.realSize ≠ 0 := by
    intro hz
    rw [hz] at hsize
    exact Nat.not_lt.mpr hsize hlen
  rw [if_neg (by simp [hne]), if_neg hpos]

theorem inTurn_next (hst : s.Started) (h : s.InTurn loops) (hl : s.Enabled MAX_THREADS a)
    (hf : s.FirstStart a) : (s.next a).InTurn (loops ++ s.picked a) := by
  cases a with
  | setHelperThreadsNumAndStart nums =>
      exact h.keep rfl id (Or.inr hf)
  | emplaceThread =>
      obtain ⟨nums, i, hc⟩ := hl
      unfold next
      simp only [hc]
      split_ifs
      · exact h.keep rfl (fun ht => absurd ht (List.append_ne_nil_of_right_ne_nil _ (by simp)))
          (Or.inl rfl)
      · exact h.keep rfl id (Or.inl rfl)
  | check =>
      obtain ⟨nums, hc⟩ := hl
      unfold next
      simp only [hc]
      exact h.keep rfl id (Or.inl rfl)
  | wake =>
      exact h.keep rfl id (Or.inl rfl)
  | init k =>
      exact h.keep rfl setPc_eq_nil (Or.inl rfl)
  | signal k =>
      exact h.keep rfl setPc_eq_nil (Or.inl rfl)
  | getNextPool =>
      obtain ⟨K, hK, hnext, hzero, hcount⟩ := h
      by_cases hne : s.threads = []
      · refine ⟨K, ?_, ?_, fun _ => hzero hne, fun i => ?_⟩
        · rw [List.length_append]
          omega
        · simp only [next, hne, List.isEmpty_nil, if_true]
          exact hnext
        · simp only [next, picked, getNextPool, hne, List.isEmpty_nil, if_true, Option.toList_some,
            List.count_append]
          exact hcount i
      · have hpick := getNextPool_of_started hst hne
        have hstep : s.next .getNextPool = { s with nextIndex := s.nextIndex + 1 } := by
          unfold next
          rw [if_neg (by simp [hne])]
        rw [hstep, picked, hpick]
        refine ⟨K + 1, ?_, ?_, fun ht => absurd ht hne, fun i => ?_⟩
        · rw [List.length_append]
          exact Nat.add_le_add_right hK 1
        · show (s.nextIndex + 1).toNat = (K + 1) % 2 ^ 64
          rw [UInt64.toNat_add, hnext]
          simp
        · rw [List.count_append, hcount i, RoundRobin.picks_succ, ← hnext]
          congr 1
          show [PooledLoop.helper (s.nextIndex % s.realSize).toNat].count (.helper i) = _
          rw [List.count_singleton, UInt64.toNat_mod]
          by_cases hi : s.nextIndex.toNat % s.realSize.toNat = i
          · simp [hi]
          · simp [hi]

theorem inTurn_of_picking {p : EventLoopPool × List PooledLoop}
    (h : Reachable (picking MAX_THREADS) p) : p.1.InTurn p.2 := by
  refine h.invariant_of (J := fun p => p.1.Started) (I := fun p => p.1.InTurn p.2)
    (fun _ hr => started_of_guarded (started_of_picking hr)) ?_ ?_
  · rintro ⟨_, _⟩ ⟨rfl, rfl⟩
    refine ⟨0, Nat.zero_le _, rfl, fun _ => rfl, fun i => ?_⟩
    rw [RoundRobin.picks_zero]
    rfl
  · rintro ⟨s, loops⟩ a ⟨t, loops'⟩ hst hin ⟨⟨⟨hl, ht⟩, hf⟩, hloops⟩
    obtain rfl : t = s.next a := ht
    obtain rfl : loops' = loops ++ s.picked a := hloops
    exact inTurn_next hst hin hl hf

theorem picking_step {p : EventLoopPool × List PooledLoop}
    (h : Reachable (picking MAX_THREADS) p) (hl : p.1.Enabled MAX_THREADS a)
    (hf : p.1.FirstStart a) :
    Reachable (picking MAX_THREADS) (p.1.next a, p.2 ++ p.1.picked a) :=
  h.step (a := a) ⟨⟨⟨hl, rfl⟩, hf⟩, rfl⟩

/-- The pool after `addWorkerThreads(2)`. -/
def twoHelpers : EventLoopPool where
  threads := [⟨0, .signalled⟩, ⟨1, .signalled⟩]
  cnt := 2
  realSize := 2

theorem picking_twoHelpers : Reachable (picking 8) (twoHelpers, []) := by
  have h₀ : Reachable (picking 8) ({}, []) := .init ⟨rfl, rfl⟩
  have h₁ := picking_step (a := .setHelperThreadsNumAndStart 2) h₀ ⟨rfl, by decide⟩ rfl
  have h₂ := picking_step (a := .emplaceThread) h₁ ⟨2, 0, rfl⟩ trivial
  have h₃ := picking_step (a := .emplaceThread) h₂ ⟨2, 1, rfl⟩ trivial
  have h₄ := picking_step (a := .emplaceThread) h₃ ⟨2, 2, rfl⟩ trivial
  have h₅ := picking_step (a := .init 0) h₄ ⟨0, rfl⟩ trivial
  have h₆ := picking_step (a := .signal 0) h₅ ⟨0, rfl⟩ trivial
  have h₇ := picking_step (a := .init 1) h₆ ⟨1, rfl⟩ trivial
  have h₈ := picking_step (a := .signal 1) h₇ ⟨1, rfl⟩ trivial
  exact picking_step (a := .check) h₈ ⟨2, rfl⟩ trivial

/-- **`getNextPool` is fair**: until `nextIndex_` wraps around, no helper loop is picked twice more
often than another; every time that it wraps around adds one at most. -/
theorem picks_balanced {i j : ℕ} (h : Reachable (picking MAX_THREADS) (s, loops))
    (hi : i < s.threads.length) (hj : j < s.threads.length) :
    loops.count (.helper i) ≤ loops.count (.helper j) + loops.length / 2 ^ 64 + 1 := by
  obtain ⟨K, hK, -, -, hcount⟩ : s.InTurn loops := inTurn_of_picking h
  have hsize : s.threads.length ≤ s.realSize.toNat :=
    (started_of_guarded (started_of_picking h)).length_le
  have hle := RoundRobin.picks_le (W := 2 ^ 64) (by decide) (hi.trans_le hsize)
    (hj.trans_le hsize) K
  rw [← hcount i, ← hcount j] at hle
  have hdiv : K / 2 ^ 64 ≤ loops.length / 2 ^ 64 := Nat.div_le_div_right hK
  omega

theorem picks_balanced_twoHelpers : ∃ loops : List PooledLoop,
    loops = [.helper 0, .helper 1, .helper 0] ∧
    loops.count (.helper 0) ≤ loops.count (.helper 1) + loops.length / 2 ^ 64 + 1 := by
  have h₁ := picking_step (a := .getNextPool) picking_twoHelpers rfl trivial
  have h₂ := picking_step (a := .getNextPool) h₁ rfl trivial
  have h₃ := picking_step (a := .getNextPool) h₂ rfl trivial
  exact ⟨_, rfl, picks_balanced h₃ (by decide) (by decide)⟩

/-! ### The start returns -/

/-- The steps of a thread until it is in `loop.start()`. -/
def toSignal (w : Worker) : ℕ :=
  match w.pc with
  | .created => 2
  | .initialized => 1
  | .signalled => 0

/-- The steps until all threads are in `loop.start()`, and the caller at its condition. -/
def work (s : EventLoopPool) : ℕ :=
  (s.threads.map toSignal).sum +
    match s.caller with
    | .starting nums i => 3 * (nums.toNat - i) + 1
    | _ => 0

theorem work_setPc {k i : ℕ} {old : WorkerPc} (h : s.threads[k]? = some ⟨i, old⟩)
    (pc : WorkerPc) :
    ((s.setPc k pc).map toSignal).sum + toSignal ⟨i, old⟩ =
      (s.threads.map toSignal).sum + toSignal ⟨i, pc⟩ := by
  obtain ⟨pre, post, hl, hm⟩ := setPc_split h pc
  rw [hl, hm]
  simp only [List.map_append, List.map_cons, List.sum_append, List.sum_cons]
  omega

/-- The other threads stay where they are. -/
theorem threads_next {k : ℕ} {w : Worker} (hk : s.threads[k]? = some w) (hinit : a ≠ .init k)
    (hsignal : a ≠ .signal k) : (s.next a).threads[k]? = some w := by
  have hset : ∀ {j : ℕ} {pc : WorkerPc}, j ≠ k → (s.setPc j pc)[k]? = some w := by
    intro j pc hjk
    unfold setPc
    rw [List.getElem?_modify_ne _ _ hjk]
    exact hk
  cases a with
  | init j => exact hset fun hjk => hinit (by rw [hjk])
  | signal j => exact hset fun hjk => hsignal (by rw [hjk])
  | emplaceThread =>
      unfold next
      dsimp only
      split
      · split_ifs
        · rw [List.getElem?_append_left (List.getElem?_eq_some_iff.mp hk).1]
          exact hk
        · exact hk
      · exact hk
  | check =>
      unfold next
      dsimp only
      split
      · exact hk
      · exact hk
  | getNextPool =>
      unfold next
      split_ifs
      · exact hk
      · exact hk
  | _ => exact hk

/-- During the call a step does some of the work, or is one of the caller at its condition. -/
theorem work_next (hl : s.Enabled MAX_THREADS a) (hc : s.caller ≠ .idle) :
    (s.next a).work < s.work ∨ (s.next a).work = s.work ∧ (a = .check ∨ a = .wake) := by
  cases a with
  | setHelperThreadsNumAndStart nums => exact absurd hl.1 hc
  | getNextPool => exact absurd hl hc
  | emplaceThread =>
      obtain ⟨nums, i, hstart⟩ := hl
      left
      unfold work next
      simp only [hstart]
      split_ifs with hi
      · simp only [List.map_append, List.map_cons, List.map_nil, List.sum_append, List.sum_cons,
          List.sum_nil, toSignal]
        omega
      · simp only
        omega
  | check =>
      obtain ⟨nums, hcheck⟩ := hl
      refine Or.inr ⟨?_, Or.inl rfl⟩
      unfold work next
      simp only [hcheck]
      split_ifs <;> rfl
  | wake =>
      obtain ⟨nums, hblocked⟩ := hl
      refine Or.inr ⟨?_, Or.inr rfl⟩
      simp only [work, next, notified, hblocked]
  | init k =>
      obtain ⟨i, hk⟩ := hl
      have hw := work_setPc hk .initialized
      left
      simp only [toSignal] at hw
      simp only [work, next]
      omega
  | signal k =>
      obtain ⟨i, hk⟩ := hl
      have hw := work_setPc hk .signalled
      left
      simp only [toSignal] at hw
      simp only [work, next, notified]
      cases s.caller <;> simp only <;> omega

/-- The other threads only wake the caller up. -/
theorem caller_next (hl : s.Enabled MAX_THREADS a) (hc : s.caller ≠ .idle)
    (hemplace : a ≠ .emplaceThread) (hcheck : a ≠ .check) : (s.next a).caller = s.notified ∨
      (s.next a).caller = s.caller := by
  cases a with
  | setHelperThreadsNumAndStart nums => exact absurd hl.1 hc
  | getNextPool => exact absurd hl hc
  | emplaceThread => exact absurd rfl hemplace
  | check => exact absurd rfl hcheck
  | wake => exact Or.inl rfl
  | init k => exact Or.inr rfl
  | signal k => exact Or.inl rfl

/-- No thread stops on its way, neither the caller nor one that it has started. -/
structure Fair (r : Run ((system MAX_THREADS).guarded FirstStart).stuttering) : Prop where
  caller : r.WeaklyFair (fun s => (∃ nums i, s.caller = .starting nums i) ∨
      ∃ nums, s.caller = .checking nums)
    fun _ a => a = some .emplaceThread ∨ a = some .check
  workers : ∀ k, r.WeaklyFair (fun s => ∃ w, s.threads[k]? = some w ∧ w.pc ≠ .signalled)
    fun _ a => a = some (.init k) ∨ a = some (.signal k)

section Runs

variable {r : Run ((system MAX_THREADS).guarded FirstStart).stuttering}

theorem started_run (r : Run ((system MAX_THREADS).guarded FirstStart).stuttering) (n : ℕ) :
    (r.st n).Started := started_of_guarded (r.reachable n).of_stuttering

theorem step_cases (r : Run ((system MAX_THREADS).guarded FirstStart).stuttering) (n : ℕ) :
    (r.act n = none ∧ r.st (n + 1) = r.st n) ∨ ∃ a, r.act n = some a ∧
      (r.st n).Enabled MAX_THREADS a ∧ (r.st n).FirstStart a ∧ r.st (n + 1) = (r.st n).next a := by
  rcases r.step_cases n with hrest | ⟨a, ha, ⟨hl, hst⟩, hf⟩
  · exact Or.inl hrest
  · exact Or.inr ⟨a, ha, hl, hf, hst⟩

/-- While threads are being started, the caller starts the next one. -/
theorem exists_emplace (hfair : Fair r) {n : ℕ} (h : ∃ nums i, (r.st n).caller = .starting nums i) :
    ∃ m, n ≤ m ∧ (r.st (m + 1)).work < (r.st m).work := by
  have hle : ∀ s : EventLoopPool, (∃ nums i, s.caller = .starting nums i) →
      (∃ nums i, s.caller = .starting nums i) ∨ ∃ nums, s.caller = .checking nums :=
    fun s => Or.inl
  have hkeep : ∀ m, (∃ nums i, (r.st m).caller = .starting nums i) →
      ¬ (r.act m = some .emplaceThread ∨ r.act m = some .check) →
      ∃ nums i, (r.st (m + 1)).caller = .starting nums i := by
    rintro m ⟨nums, i, hc⟩ hnot
    rcases step_cases r m with ⟨-, hst⟩ | ⟨a, ha, hl, -, hst⟩
    · rw [hst]
      exact ⟨nums, i, hc⟩
    · rw [ha] at hnot
      rw [hst]
      refine ⟨nums, i, ?_⟩
      rcases caller_next hl (by rw [hc]; exact fun he => by cases he)
        (fun he => hnot (Or.inl (by rw [he]))) (fun he => hnot (Or.inr (by rw [he]))) with he | he
      · rw [he, notified, hc]
      · rw [he, hc]
  obtain ⟨m, hm, ⟨nums, i, hc⟩, hact⟩ := (hfair.caller.mono hle).taken hkeep h
  refine ⟨m, hm, ?_⟩
  rcases step_cases r m with ⟨hnone, -⟩ | ⟨a, ha, hl, -, hst⟩
  · rw [hnone] at hact
    rcases hact with hact | hact <;> cases hact
  · rw [hst]
    refine (work_next hl (by rw [hc]; exact fun he => by cases he)).resolve_right ?_
    rintro ⟨-, rfl | rfl⟩
    · obtain ⟨nums', hc'⟩ := hl
      rw [hc] at hc'
      cases hc'
    · obtain ⟨nums', hc'⟩ := hl
      rw [hc] at hc'
      cases hc'

/-- A thread that is not yet in `loop.start()` goes on. -/
theorem exists_worker (hfair : Fair r) {n k : ℕ} {w : Worker}
    (hk : (r.st n).threads[k]? = some w) (hw : w.pc ≠ .signalled) :
    ∃ m, n ≤ m ∧ ((r.st m).caller = .idle ∨ (r.st (m + 1)).work < (r.st m).work) := by
  have hle : ∀ s : EventLoopPool, s.threads[k]? = some w →
      ∃ w, s.threads[k]? = some w ∧ w.pc ≠ .signalled := fun s hs => ⟨w, hs, hw⟩
  have hkeep : ∀ m, (r.st m).threads[k]? = some w →
      ¬ (r.act m = some (.init k) ∨ r.act m = some (.signal k)) →
      (r.st (m + 1)).threads[k]? = some w := by
    intro m hs hnot
    rcases step_cases r m with ⟨-, hst⟩ | ⟨a, ha, -, -, hst⟩
    · rw [hst]
      exact hs
    · rw [ha] at hnot
      rw [hst]
      exact threads_next hs (fun he => hnot (Or.inl (by rw [he])))
        fun he => hnot (Or.inr (by rw [he]))
  obtain ⟨m, hm, -, hact⟩ := ((hfair.workers k).mono hle).taken hkeep hk
  refine ⟨m, hm, ?_⟩
  by_cases hc : (r.st m).caller = .idle
  · exact Or.inl hc
  · right
    rcases step_cases r m with ⟨hnone, -⟩ | ⟨a, ha, hl, -, hst⟩
    · rw [hnone] at hact
      rcases hact with hact | hact <;> cases hact
    · rw [hst]
      refine (work_next hl hc).resolve_right ?_
      rw [ha] at hact
      rintro ⟨-, rfl | rfl⟩
      · rcases hact with hact | hact <;> cases hact
      · rcases hact with hact | hact <;> cases hact

/-- All threads are in `loop.start()`, and the caller is at its condition, which holds. -/
def Ready (s : EventLoopPool) : Prop :=
  (∃ nums, s.caller = .checking nums ∧ s.cnt = nums) ∧ ∀ w ∈ s.threads, w.pc = .signalled

theorem exists_return (hfair : Fair r) {n : ℕ} (h : (r.st n).Ready) :
    ∃ m, n ≤ m ∧ (r.st m).caller = .idle := by
  have hle : ∀ s : EventLoopPool, s.Ready →
      (∃ nums i, s.caller = .starting nums i) ∨ ∃ nums, s.caller = .checking nums := by
    rintro s ⟨⟨nums, hc, -⟩, -⟩
    exact Or.inr ⟨nums, hc⟩
  -- no other step is possible
  have honly : ∀ m a, (r.st m).Ready → (r.st m).Enabled MAX_THREADS a → a = .check := by
    rintro m a ⟨⟨nums, hc, -⟩, hall⟩ hl
    cases a with
    | check => rfl
    | setHelperThreadsNumAndStart nums =>
        have := hl.1
        rw [hc] at this
        cases this
    | getNextPool =>
        have : (r.st m).caller = .idle := hl
        rw [hc] at this
        cases this
    | emplaceThread =>
        obtain ⟨_, _, hc'⟩ := hl
        rw [hc] at hc'
        cases hc'
    | wake =>
        obtain ⟨_, hc'⟩ := hl
        rw [hc] at hc'
        cases hc'
    | init k =>
        obtain ⟨i, hk⟩ := hl
        cases hall _ (List.mem_of_getElem? hk)
    | signal k =>
        obtain ⟨i, hk⟩ := hl
        cases hall _ (List.mem_of_getElem? hk)
  have hkeep : ∀ m, (r.st m).Ready →
      ¬ (r.act m = some .emplaceThread ∨ r.act m = some .check) → (r.st (m + 1)).Ready := by
    intro m hs hnot
    rcases step_cases r m with ⟨-, hst⟩ | ⟨a, ha, hl, -, hst⟩
    · rw [hst]
      exact hs
    · obtain rfl := honly m a hs hl
      exact absurd (Or.inr ha) hnot
  obtain ⟨m, hm, hs, hact⟩ := (hfair.caller.mono hle).taken hkeep h
  refine ⟨m + 1, by omega, ?_⟩
  rcases step_cases r m with ⟨hnone, -⟩ | ⟨a, ha, hl, -, hst⟩
  · rw [hnone] at hact
    rcases hact with hact | hact <;> cases hact
  · obtain rfl := honly m a hs hl
    obtain ⟨⟨nums, hc, hcnt⟩, -⟩ := hs
    rw [hst]
    simp only [next, hc, hcnt, if_true]

theorem exists_idle (hfair : Fair r) (n : ℕ) : ∃ m, n ≤ m ∧ (r.st m).caller = .idle := by
  refine eventually_of_rank (fun m => (r.st m).work) (fun m _ hidle => ?_) fun m _ => ?_
  · rcases step_cases r m with ⟨-, hst⟩ | ⟨a, -, hl, -, hst⟩
    · rw [hst]
    · rw [hst]
      rcases work_next hl hidle with hlt | ⟨heq, -⟩
      · exact hlt.le
      · exact heq.le
  · by_cases hidle : (r.st m).caller = .idle
    · exact ⟨m, le_refl m, Or.inl hidle⟩
    by_cases hall : ∀ w ∈ (r.st m).threads, w.pc = .signalled
    · cases hc : (r.st m).caller with
      | idle => exact absurd hc hidle
      | starting nums i =>
          obtain ⟨k, hk, hlt⟩ := exists_emplace hfair ⟨nums, i, hc⟩
          exact ⟨k, hk, Or.inr hlt⟩
      | checking nums =>
          obtain ⟨hcnt, -⟩ := (started_run r m).sound.released nums (Or.inl hc) hall
          obtain ⟨k, hk, hret⟩ := exists_return hfair ⟨⟨nums, hc, hcnt⟩, hall⟩
          exact ⟨k, hk, Or.inl hret⟩
      | blocked nums =>
          obtain ⟨-, hc'⟩ := (started_run r m).sound.released nums (Or.inr hc) hall
          rw [hc] at hc'
          cases hc'
    · push Not at hall
      obtain ⟨w, hw, hpc⟩ := hall
      obtain ⟨k, hk⟩ := List.mem_iff_getElem?.mp hw
      exact exists_worker hfair hk hpc

end Runs

/-- The run along `addedWorker`. -/
def addedWorkerRun : Run ((system 8).guarded FirstStart).stuttering :=
  oneWorker_path.run (fun _ _ _ h => h.1.2) rfl

theorem fair_addedWorkerRun : Fair addedWorkerRun := by
  have hend : ∀ m, 6 ≤ m → addedWorkerRun.st m = oneWorker :=
    fun m hm => oneWorker_path.run_end _ rfl hm
  refine ⟨Run.weaklyFair_of_end hend ?_, fun k => Run.weaklyFair_of_end hend ?_⟩
  · rintro (⟨nums, i, hc⟩ | ⟨nums, hc⟩)
    · cases hc
    · cases hc
  · rintro ⟨w, hk, hw⟩
    obtain rfl : w = ⟨0, .signalled⟩ := List.mem_singleton.mp (List.mem_of_getElem? hk)
    exact hw rfl

/-- **The start returns**: in every run in which threads are started by one call and no thread stops
on its way, the call of `setHelperThreadsNumAndStart` returns, and all its threads are then in
`loop.start()`. -/
theorem start_returns (r : Run ((system MAX_THREADS).guarded FirstStart).stuttering)
    (hfair : Fair r) (n : ℕ) : ∃ m, n ≤ m ∧ (r.st m).caller = .idle ∧
      (r.st m).threads.length = (r.st m).realSize.toNat ∧
      ∀ w ∈ (r.st m).threads, w.pc = .signalled := by
  obtain ⟨m, hm, hidle⟩ := exists_idle hfair n
  have hst := started_run r m
  have hw := hst.waiting
  simp only [Waiting, hidle] at hw
  exact ⟨m, hm, hidle, hw.1, hst.signalled_of_idle hidle⟩

theorem start_returns_addedWorkerRun : (addedWorkerRun.st 1).caller = .starting 1 0 ∧
    ∃ m, 1 ≤ m ∧ (addedWorkerRun.st m).caller = .idle ∧
      (addedWorkerRun.st m).threads.length = (addedWorkerRun.st m).realSize.toNat ∧
      ∀ w ∈ (addedWorkerRun.st m).threads, w.pc = .signalled :=
  ⟨rfl, start_returns addedWorkerRun fair_addedWorkerRun 1⟩

end EventLoopPool

end Dagger
