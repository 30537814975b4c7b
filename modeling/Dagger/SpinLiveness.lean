import Dagger.FairRuns
import Dagger.SpinLock

/-! # Progress of the spin lock

If no thread stops inside of `lock()`, its critical section or `unlock()`, then whenever a thread is
in `lock()` some thread gets the lock (`some_thread_acquires`).  It need not be that one: a thread
may spin for ever while another one takes the lock again and again (`spins_for_ever`). -/

namespace Dagger

namespace SpinLock

namespace Pc

/-- In `lock()`, without the lock. -/
def Tries : Pc → Prop
  | tryLock _ | spinning _ | test _ => True
  | _ => False

/-- The steps to the compare-exchange, while the lock is free. -/
def toTry : Pc → ℕ
  | spinning _ => 2
  | test _ => 1
  | _ => 0

/-- The steps to the store that frees the lock. -/
def toRelease : Pc → ℕ
  | acquired => 3
  | critical => 2
  | unlocking => 1
  | _ => 0

end Pc

variable {s : SpinLock} {pc : Pc}

/-- A thread that finds the lock free tries it. -/
theorem next_of_tries (hfree : s.lock_ = FREE) (h : pc.Tries) :
    (s.next pc).2 = .acquired ∨ (s.next pc).2.Tries ∧ (s.next pc).2.toTry < pc.toTry := by
  cases pc with
  | tryLock spinCount =>
      left
      simp [next, cas, hfree]
  | spinning spinCount => exact Or.inr ⟨trivial, (by decide : 1 < 2)⟩
  | test spinCount =>
      right
      have hne : s.lock_ ≠ LOCKED := by
        rw [hfree]
        exact LOCKED_ne_FREE.symm
      simp only [next, if_neg hne]
      exact ⟨trivial, (by decide : 0 < 1)⟩
  | _ => exact h.elim

/-- A thread in `lock()` stays there until it gets the lock. -/
theorem tries_next (h : pc.Tries) : (s.next pc).2 = .acquired ∨ (s.next pc).2.Tries := by
  cases pc with
  | tryLock spinCount =>
      obtain ⟨-, he⟩ | he := next_tryLock s spinCount
      · rw [he]
        exact Or.inl rfl
      · rw [he]
        exact Or.inr trivial
  | spinning spinCount => exact Or.inr trivial
  | test spinCount =>
      right
      show (if s.lock_ = LOCKED then Pc.spinning spinCount else .tryLock spinCount).Tries
      split_ifs
      · trivial
      · trivial
  | _ => exact h.elim

/-- A thread that has the lock comes nearer to its store. -/
theorem next_of_holds (hlocked : s.lock_ = LOCKED) (h : pc.Holds) (hpc : pc ≠ .aborted) :
    (s.next pc).1.lock_ = FREE ∨ (s.next pc).2.Holds ∧ (s.next pc).2.toRelease < pc.toRelease := by
  cases pc with
  | acquired =>
      right
      simp only [next, assertLocked_of_locked hlocked]
      exact ⟨trivial, (by decide : 2 < 3)⟩
  | critical => exact Or.inr ⟨trivial, (by decide : 1 < 2)⟩
  | unlocking =>
      right
      simp only [next, assertLocked_of_locked hlocked]
      exact ⟨trivial, (by decide : 0 < 1)⟩
  | releasing => exact Or.inl rfl
  | aborted => exact absurd rfl hpc
  | _ => exact h.elim

end SpinLock

namespace SpinThreads

open Transition SpinLock

variable {ι : Type} [DecidableEq ι]

/-- No thread stops in `lock()`, in its critical section or in `unlock()`. -/
def Fair (r : Run (system ι).stuttering) : Prop :=
  ∀ i, r.WeaklyFair (fun s => s.pc i ≠ .idle) fun _ a => a = some i

/-- Thread `i` gets the lock in step `n`. -/
def Acquires (r : Run (system ι).stuttering) (n : ℕ) (i : ι) : Prop :=
  ((r.st n).pc i).Tries ∧ (r.st (n + 1)).pc i = .acquired

variable {r : Run (system ι).stuttering} {i : ι}

theorem tracks_run (r : Run (system ι).stuttering) (n : ℕ) : ∃ holder, (r.st n).Tracks holder := by
  obtain ⟨holder, -, h⟩ := (simulates_lock ι).reachable (r.reachable n).of_stuttering
  exact ⟨holder, h⟩

theorem pc_of_ne {n : ℕ} (h : r.act n ≠ some i) : (r.st (n + 1)).pc i = (r.st n).pc i := by
  rcases r.step_cases n with ⟨-, hst⟩ | ⟨j, ha, -, hst⟩
  · rw [hst]
  · rw [hst]
    refine pc_next_of_ne ?_
    rintro rfl
    exact h ha

theorem next_of_act {n : ℕ} (h : r.act n = some i) : r.st (n + 1) = (r.st n).next i := by
  rcases r.step_cases n with ⟨hnone, -⟩ | ⟨j, ha, -, hst⟩
  · rw [hnone] at h
    cases h
  · rw [ha] at h
    rw [hst, Option.some.inj h]

/-- A thread that is not idle takes its next step. -/
theorem exists_act (hfair : Fair r) {n : ℕ} {pc : Pc} (h : (r.st n).pc i = pc) (hpc : pc ≠ .idle) :
    ∃ m, n ≤ m ∧ (r.st m).pc i = pc ∧ r.act m = some i := by
  have hle : ∀ s : SpinThreads ι, s.pc i = pc → s.pc i ≠ .idle := by
    rintro s rfl
    exact hpc
  refine ((hfair i).mono hle).taken (fun m hm hnot => ?_) h
  rw [pc_of_ne hnot]
  exact hm

/-- The lock is given back. -/
theorem exists_free (hfair : Fair r) : ∀ (k : ℕ) {n : ℕ}, ((r.st n).pc i).Holds →
    ((r.st n).pc i).toRelease = k → ∃ m, n ≤ m ∧ (r.st m).lock.lock_ = FREE := by
  intro k
  induction k using Nat.strong_induction_on with
  | _ k ih =>
      intro n hholds hk
      have hidle : (r.st n).pc i ≠ .idle := fun he => by
        rw [he] at hholds
        exact hholds
      obtain ⟨m, hm, hpc, ha⟩ := exists_act hfair rfl hidle
      rw [← hpc] at hholds hk
      obtain ⟨holder, htracks⟩ := tracks_run r m
      have hst := next_of_act ha
      rcases next_of_holds (htracks.locked_iff.mpr ⟨i, hholds⟩) hholds (htracks.running i) with
        hfree | ⟨hnext, hlt⟩
      · refine ⟨m + 1, by omega, ?_⟩
        rw [hst]
        exact hfree
      · rw [← pc_next_self, ← hst] at hnext hlt
        obtain ⟨j, hj, hfree⟩ := ih _ (by omega) hnext rfl
        exact ⟨j, by omega, hfree⟩

/-- While no thread gets the lock, a free lock stays free. -/
theorem free_of_not_acquires {n m : ℕ} (hm : n ≤ m) (hnone : ∀ m, n ≤ m → ∀ j, ¬ Acquires r m j)
    (hfree : (r.st n).lock.lock_ = FREE) : (r.st m).lock.lock_ = FREE := by
  induction hm with
  | refl => exact hfree
  | @step m hm ih =>
      rcases r.step_cases m with ⟨-, hst⟩ | ⟨j, ha, -, hst⟩
      · rw [hst]
        exact ih
      · rw [hst]
        show ((r.st m).lock.next ((r.st m).pc j)).1.lock_ = FREE
        cases hpc : (r.st m).pc j with
        | tryLock spinCount =>
            refine absurd ⟨by rw [hpc]; trivial, ?_⟩ (hnone m hm j)
            rw [hst, pc_next_self, hpc]
            simp [SpinLock.next, cas, ih]
        | releasing => rfl
        | _ => exact ih

theorem acquires_of_free (hfair : Fair r) : ∀ (k : ℕ) {n : ℕ}, (r.st n).lock.lock_ = FREE →
    ((r.st n).pc i).Tries → ((r.st n).pc i).toTry = k → ∃ m, n ≤ m ∧ ∃ j, Acquires r m j := by
  intro k
  induction k using Nat.strong_induction_on with
  | _ k ih =>
      intro n hfree htries hk
      by_contra hnever
      have hnone : ∀ m, n ≤ m → ∀ j, ¬ Acquires r m j :=
        fun m hm j hj => hnever ⟨m, hm, j, hj⟩
      have hidle : (r.st n).pc i ≠ .idle := fun he => by
        rw [he] at htries
        exact htries
      obtain ⟨m, hm, hpc, ha⟩ := exists_act hfair rfl hidle
      rw [← hpc] at htries hk
      have hst := next_of_act ha
      have hfree' := free_of_not_acquires hm hnone hfree
      rcases next_of_tries hfree' htries with hacq | ⟨hnext, hlt⟩
      · refine hnone m hm i ⟨htries, ?_⟩
        rw [hst, pc_next_self]
        exact hacq
      · rw [← pc_next_self, ← hst] at hnext hlt
        have hfree'' : (r.st (m + 1)).lock.lock_ = FREE :=
          free_of_not_acquires (hm.trans (Nat.le_succ m)) hnone hfree
        obtain ⟨j, hj, hacq⟩ := ih _ (by omega) hfree'' hnext rfl
        exact hnever ⟨j, by omega, hacq⟩

/-! ### A thread that spins for ever -/

section Starving

variable {i j : ι} {s : SpinThreads ι} {word : UInt8} {p q : Pc}

/-- Thread `i` is at `p`, thread `j` at `q`, and the others have not begun. -/
structure At (i j : ι) (word : UInt8) (p q : Pc) (s : SpinThreads ι) : Prop where
  lock : s.lock = ⟨word⟩
  first : s.pc i = p
  second : s.pc j = q
  others : ∀ k, k ≠ i → k ≠ j → s.pc k = .idle

omit [DecidableEq ι] in
theorem At.running (h : At i j word p q s) (hp : p ≠ .aborted) (hq : q ≠ .aborted) (k : ι) :
    s.pc k ≠ .aborted := by
  by_cases hi : k = i
  · rw [hi, h.first]
    exact hp
  · by_cases hj : k = j
    · rw [hj, h.second]
      exact hq
    · rw [h.others k hi hj]
      exact fun he => by cases he

/-- A step of the first thread. -/
theorem At.next_first {word' : UInt8} {p' : Pc} (hij : i ≠ j) (h : At i j word p q s)
    (hnext : SpinLock.next ⟨word⟩ p = (⟨word'⟩, p')) : At i j word' p' q (s.next i) := by
  have hstep : s.lock.next (s.pc i) = (⟨word'⟩, p') := by
    rw [h.lock, h.first]
    exact hnext
  refine ⟨?_, ?_, ?_, fun k hi hj => ?_⟩
  · show (s.lock.next (s.pc i)).1 = _
    rw [hstep]
  · rw [pc_next_self, hstep]
  · rw [pc_next_of_ne hij.symm]
    exact h.second
  · rw [pc_next_of_ne hi]
    exact h.others k hi hj

omit [DecidableEq ι] in
theorem At.symm (h : At i j word p q s) : At j i word q p s :=
  ⟨h.lock, h.second, h.first, fun k hj hi => h.others k hi hj⟩

theorem At.next_second {word' : UInt8} {q' : Pc} (hij : i ≠ j) (h : At i j word p q s)
    (hnext : SpinLock.next ⟨word⟩ q = (⟨word'⟩, q')) : At i j word' p q' (s.next j) :=
  (h.symm.next_first hij.symm hnext).symm

/-- The first thread takes the lock and gives it back, and the second one tests it only while the
first one has it. -/
def Cycle (i j : ι) (c : UInt32) (s : SpinThreads ι) : ℕ → Prop
  | 0 => At i j LOCKED .acquired (.spinning c) s
  | 1 => At i j LOCKED .critical (.spinning c) s
  | 2 => At i j LOCKED .critical (.test c) s
  | 3 => At i j LOCKED .critical (.spinning c) s
  | 4 => At i j LOCKED .unlocking (.spinning c) s
  | 5 => At i j LOCKED .releasing (.spinning c) s
  | 6 => At i j FREE .idle (.spinning c) s
  | 7 => At i j FREE (.tryLock 0) (.spinning c) s
  | _ => False

/-- Up to the cycle. -/
def Starving (i j : ι) : ℕ → SpinThreads ι → Prop
  | 0, s => At i j FREE .idle .idle s
  | 1, s => At i j FREE (.tryLock 0) .idle s
  | 2, s => At i j LOCKED .acquired .idle s
  | 3, s => At i j LOCKED .acquired (.tryLock 0) s
  | n + 4, s => ∃ c, Cycle i j c s (n % 8)

/-- Whose step it is. -/
def turn (i j : ι) : ℕ → ι
  | 0 | 1 => i
  | 2 | 3 => j
  | n + 4 => if n % 8 = 1 ∨ n % 8 = 2 then j else i

omit [DecidableEq ι] in
theorem Cycle.at {c : UInt32} {k : ℕ} (h : Cycle i j c s k) :
    ∃ word p q, At i j word p q s ∧ p ≠ .aborted ∧ q.Tries := by
  unfold Cycle at h
  split at h
  case h_9 => exact h.elim
  all_goals exact ⟨_, _, _, h, (fun he => by cases he), trivial⟩

theorem cycle_next (hij : i ≠ j) {c : UInt32} {k : ℕ} (h : Cycle i j c s k) :
    ∃ c', Cycle i j c' (s.next (if k = 1 ∨ k = 2 then j else i)) ((k + 1) % 8) := by
  unfold Cycle at h
  split at h
  · exact ⟨c, h.next_first hij rfl⟩
  · exact ⟨_, h.next_second hij rfl⟩
  · exact ⟨_, h.next_second hij rfl⟩
  · exact ⟨c, h.next_first hij rfl⟩
  · exact ⟨c, h.next_first hij rfl⟩
  · exact ⟨c, h.next_first hij rfl⟩
  · exact ⟨c, h.next_first hij rfl⟩
  · exact ⟨c, h.next_first hij rfl⟩
  · exact h.elim

omit [DecidableEq ι] in
theorem Starving.running {n : ℕ} (h : Starving i j n s) (k : ι) : s.pc k ≠ .aborted := by
  unfold Starving at h
  split at h
  · exact h.running (fun he => by cases he) (fun he => by cases he) k
  · exact h.running (fun he => by cases he) (fun he => by cases he) k
  · exact h.running (fun he => by cases he) (fun he => by cases he) k
  · exact h.running (fun he => by cases he) (fun he => by cases he) k
  · obtain ⟨c, hc⟩ := h
    obtain ⟨word, p, q, hat, hp, hq⟩ := hc.at
    refine hat.running hp (fun he => ?_) k
    rw [he] at hq
    exact hq

theorem starving_next (hij : i ≠ j) : ∀ {n : ℕ}, Starving i j n s →
    Starving i j (n + 1) (s.next (turn i j n))
  | 0, h => h.next_first hij rfl
  | 1, h => h.next_first hij rfl
  | 2, h => h.next_second hij rfl
  | 3, h => ⟨0, h.next_second hij rfl⟩
  | n + 4, h => by
      obtain ⟨c, hc⟩ := h
      obtain ⟨c', hc'⟩ := cycle_next hij hc
      refine ⟨c', ?_⟩
      rw [Nat.mod_add_mod] at hc'
      exact hc'

/-- The run in which the two threads take their turns. -/
theorem exists_starving (hij : i ≠ j) : ∃ r : Run (system ι).stuttering,
    ∀ n, Starving i j n (r.st n) ∧ r.act n = some (turn i j n) := by
  have hstart : Starving i j 0 (start ι) := ⟨rfl, rfl, rfl, fun _ _ _ => rfl⟩
  refine exists_run (S := (system ι).stuttering) (C := fun n _ a => a = some (turn i j n)) rfl
    hstart fun n s h => ?_
  exact ⟨some (turn i j n), s.next (turn i j n), ⟨h.running, rfl⟩, rfl, starving_next hij h⟩

omit [DecidableEq ι] in
/-- Both threads have their turn again and again. -/
theorem exists_turn (i j : ι) (n : ℕ) :
    (∃ m, n ≤ m ∧ turn i j m = i) ∧ ∃ m, n ≤ m ∧ turn i j m = j := by
  refine ⟨⟨8 * n + 11, by omega, ?_⟩, 8 * n + 5, by omega, ?_⟩
  · show (if (8 * n + 7) % 8 = 1 ∨ (8 * n + 7) % 8 = 2 then j else i) = i
    rw [if_neg (by omega)]
  · show (if (8 * n + 1) % 8 = 1 ∨ (8 * n + 1) % 8 = 2 then j else i) = j
    rw [if_pos (by omega)]

omit [DecidableEq ι] in
theorem Starving.tries {n : ℕ} (h : Starving i j (n + 4) s) : (s.pc j).Tries := by
  obtain ⟨c, hc⟩ := h
  obtain ⟨word, p, q, hat, -, hq⟩ := hc.at
  rw [hat.second]
  exact hq

theorem fair_starving {r : Run (system ι).stuttering}
    (hr : ∀ n, Starving i j n (r.st n) ∧ r.act n = some (turn i j n)) : Fair r := by
  intro k n hk
  by_cases hi : k = i
  · obtain ⟨⟨m, hm, hturn⟩, -⟩ := exists_turn i j n
    exact ⟨m, hm, by rw [(hr m).2, hturn, hi]⟩
  · by_cases hj : k = j
    · obtain ⟨-, m, hm, hturn⟩ := exists_turn i j n
      exact ⟨m, hm, by rw [(hr m).2, hturn, hj]⟩
    · -- the other threads have not begun
      have hs := (hr (n + 4)).1
      obtain ⟨c, hc⟩ := hs
      obtain ⟨word, p, q, hat, -, -⟩ := hc.at
      exact absurd (hat.others k hi hj) (hk (n + 4) (by omega))

/-- **No deadlock**: whenever a thread is in `lock()`, then or later some thread gets the lock. -/
theorem some_thread_acquires (r : Run (system ι).stuttering) (hfair : Fair r) {n : ℕ}
    (h : ((r.st n).pc i).Tries) : ∃ m, n ≤ m ∧ ∃ j, Acquires r m j := by
  by_contra hnever
  have hnone : ∀ m, n ≤ m → ∀ j, ¬ Acquires r m j := fun m hm j hj => hnever ⟨m, hm, j, hj⟩
  have htries : ∀ m, n ≤ m → ((r.st m).pc i).Tries := by
    intro m hm
    induction hm with
    | refl => exact h
    | @step m hm ih =>
        by_cases ha : r.act m = some i
        · rw [next_of_act ha, pc_next_self]
          refine (tries_next ih).resolve_left fun hacq => hnone m hm i ⟨ih, ?_⟩
          rw [next_of_act ha, pc_next_self]
          exact hacq
        · rw [pc_of_ne ha]
          exact ih
  have hfree : ∃ m, n ≤ m ∧ (r.st m).lock.lock_ = FREE := by
    obtain ⟨holder, htracks⟩ := tracks_run r n
    cases holder with
    | none => exact ⟨n, le_refl n, htracks.word⟩
    | some j => exact exists_free hfair _ ((htracks.exclusive j).mpr rfl) rfl
  obtain ⟨m, hm, hfree⟩ := hfree
  obtain ⟨k, hk, hacq⟩ := acquires_of_free hfair _ hfree (htries m hm) rfl
  exact hnever ⟨k, hm.trans hk, hacq⟩

theorem some_thread_acquires_starving : ∃ r : Run (system Bool).stuttering,
    ((r.st 4).pc false).Tries ∧ ∃ m, 4 ≤ m ∧ ∃ j, Acquires r m j := by
  obtain ⟨r, hr⟩ := exists_starving (i := true) (j := false) (fun h => by cases h)
  have htries : ((r.st 4).pc false).Tries := (hr 4).1.tries
  exact ⟨r, htries, some_thread_acquires r (fair_starving hr) htries⟩

/-- **Starvation**: for any two threads there is a run in which neither stops, one of them gets the
lock again and again, and the other one spins for ever. -/
theorem spins_for_ever (hij : i ≠ j) : ∃ r : Run (system ι).stuttering, Fair r ∧
    (∀ n, 4 ≤ n → ((r.st n).pc j).Tries) ∧ ∀ n, ∃ m, n ≤ m ∧ Acquires r m i := by
  obtain ⟨r, hr⟩ := exists_starving hij
  refine ⟨r, fair_starving hr, fun n hn => ?_, fun n => ?_⟩
  · obtain ⟨m, rfl⟩ := Nat.exists_eq_add_of_le' hn
    exact (hr (m + 4)).1.tries
  · refine ⟨8 * n + 11, by omega, ?_⟩
    have hbefore := (hr (8 * n + 11)).1
    have hafter := (hr (8 * n + 12)).1
    obtain ⟨c, hc⟩ := hbefore
    obtain ⟨c', hc'⟩ := hafter
    rw [show (8 * n + 7) % 8 = 7 by omega] at hc
    rw [show (8 * n + 8) % 8 = 0 by omega] at hc'
    have hfirst : At i j FREE (.tryLock 0) (.spinning c) (r.st (8 * n + 11)) := hc
    have hsecond : At i j LOCKED .acquired (.spinning c') (r.st (8 * n + 12)) := hc'
    refine ⟨?_, hsecond.first⟩
    rw [hfirst.first]
    trivial

theorem spins_for_ever_two : ∃ r : Run (system Bool).stuttering, Fair r ∧
    (∀ n, 4 ≤ n → ((r.st n).pc false).Tries) ∧ ∀ n, ∃ m, n ≤ m ∧ Acquires r m true :=
  spins_for_ever (fun h => by cases h)

end Starving

end SpinThreads

end Dagger
