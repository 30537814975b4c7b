import Dagger.Transition
import Mathlib.Order.Monotone.Basic
import Mathlib.Tactic.ByContra
import Mathlib.Tactic.Push

/-! # Infinite runs and fairness

`Run S` is an infinite run of a transition system; the runs of `S.stuttering` may rest, or end.  A
run is weakly fair to a kind of step when the step is not put off for ever while it is enabled
(`WeaklyFair`); if only the step itself disables it, then it is taken whenever it is enabled
(`WeaklyFair.taken`).

`eventually_of_rank` turns such steps into liveness: a rank that never grows and is lowered again
and again cannot go on without reaching the goal.  `unbounded_of_growth` reads off that what grows
with every goal grows without bound. -/

namespace Transition

universe u v

variable {σ : Type u} {α : Type v} {S : System σ α}

structure Run (S : System σ α) where
  st : ℕ → σ
  act : ℕ → α
  init : S.Init (st 0)
  step : ∀ n, S.Step (st n) (act n) (st (n + 1))

theorem Run.reachable (r : Run S) : ∀ n, Reachable S (r.st n)
  | 0 => .init r.init
  | n + 1 => .step (r.reachable n) (r.step n)

/-- `none` is a moment in which nothing happens. -/
def System.stuttering (S : System σ α) : System σ (Option α) where
  Init := S.Init
  Step s a t := match a with
    | some a => S.Step s a t
    | none => t = s

theorem Reachable.of_stuttering {s : σ} (h : Reachable S.stuttering s) : Reachable S s := by
  induction h with
  | init hi => exact .init hi
  | @step s t a _ hs ih =>
      cases a with
      | some a => exact ih.step hs
      | none =>
          obtain rfl : t = s := hs
          exact ih

theorem Run.step_cases (r : Run S.stuttering) (n : ℕ) :
    (r.act n = none ∧ r.st (n + 1) = r.st n) ∨
      ∃ a, r.act n = some a ∧ S.Step (r.st n) a (r.st (n + 1)) := by
  have hstep := r.step n
  cases ha : r.act n with
  | none =>
      rw [ha] at hstep
      exact Or.inl ⟨rfl, hstep⟩
  | some a =>
      rw [ha] at hstep
      exact Or.inr ⟨a, rfl, hstep⟩

/-- A run goes on for ever where some step always leads on, from `I n` to `I (n + 1)`. -/
theorem exists_run {I : ℕ → σ → Prop} {C : ℕ → σ → α → Prop} {s : σ} (hinit : S.Init s)
    (hs : I 0 s) (hstep : ∀ n s, I n s → ∃ a t, S.Step s a t ∧ C n s a ∧ I (n + 1) t) :
    ∃ r : Run S, ∀ n, I n (r.st n) ∧ C n (r.st n) (r.act n) := by
  choose act next hnext using hstep
  let st : ∀ n, { s // I n s } :=
    fun n => Nat.rec ⟨s, hs⟩ (fun n x => ⟨next n x.1 x.2, (hnext n x.1 x.2).2.2⟩) n
  refine ⟨⟨fun n => (st n).1, fun n => act n (st n).1 (st n).2, hinit, fun n => ?_⟩, fun n => ?_⟩
  · exact (hnext n (st n).1 (st n).2).1
  · exact ⟨(st n).2, (hnext n (st n).1 (st n).2).2.1⟩

/-! ### Weak fairness -/

/-- A step that is enabled from some point on is taken after it. -/
def Run.WeaklyFair (r : Run S) (Enabled : σ → Prop) (Taken : σ → α → Prop) : Prop :=
  ∀ n, (∀ m, n ≤ m → Enabled (r.st m)) → ∃ m, n ≤ m ∧ Taken (r.st m) (r.act m)

theorem Run.WeaklyFair.mono {r : Run S} {Enabled Enabled' : σ → Prop} {Taken : σ → α → Prop}
    (h : r.WeaklyFair Enabled Taken) (hle : ∀ s, Enabled' s → Enabled s) :
    r.WeaklyFair Enabled' Taken :=
  fun n hn => h n fun m hm => hle _ (hn m hm)

/-- A step that nothing else disables. -/
theorem Run.WeaklyFair.taken {r : Run S} {Enabled : σ → Prop} {Taken : σ → α → Prop}
    (h : r.WeaklyFair Enabled Taken)
    (hkeep : ∀ n, Enabled (r.st n) → ¬ Taken (r.st n) (r.act n) → Enabled (r.st (n + 1))) {n : ℕ}
    (hn : Enabled (r.st n)) : ∃ m, n ≤ m ∧ Enabled (r.st m) ∧ Taken (r.st m) (r.act m) := by
  by_contra hnever
  push Not at hnever
  have henabled : ∀ m, n ≤ m → Enabled (r.st m) := by
    intro m hm
    induction hm with
    | refl => exact hn
    | @step m hm ih => exact hkeep m ih (hnever m hm ih)
  obtain ⟨m, hm, ht⟩ := h n henabled
  exact hnever m hm (henabled m hm) ht

/-- A step that is enabled again and again from some point on is taken after it. -/
def Run.StronglyFair (r : Run S) (Enabled : σ → Prop) (Taken : σ → α → Prop) : Prop :=
  ∀ n, (∀ m, n ≤ m → ∃ k, m ≤ k ∧ Enabled (r.st k)) → ∃ m, n ≤ m ∧ Taken (r.st m) (r.act m)

/-! ### Runs that end -/

/-- The states along the labels `as`, and the last one for ever. -/
def statesAlong (next : σ → α → σ) (s : σ) (as : List α) (n : ℕ) : σ := (as.take n).foldl next s

theorem statesAlong_of_le (next : σ → α → σ) (s : σ) (as : List α) {n : ℕ} (h : as.length ≤ n) :
    statesAlong next s as n = as.foldl next s := by
  unfold statesAlong
  rw [List.take_of_length_le h]

theorem Path.stepsAlong {next : σ → α → σ} (hnext : ∀ s a t, S.Step s a t → t = next s a) {s t : σ}
    {as : List α} (h : Path S s as t) (n : ℕ) :
    S.stuttering.Step (statesAlong next s as n) as[n]? (statesAlong next s as (n + 1)) := by
  induction h generalizing n with
  | nil s =>
      show statesAlong next s [] (n + 1) = statesAlong next s [] n
      unfold statesAlong
      rw [List.take_nil, List.take_nil]
  | @cons s t u a as h1 _ ih =>
      obtain rfl := hnext s a t h1
      cases n with
      | zero => exact h1
      | succ n => exact ih n

theorem Path.foldl_eq {next : σ → α → σ} (hnext : ∀ s a t, S.Step s a t → t = next s a) {s t : σ}
    {as : List α} (h : Path S s as t) : as.foldl next s = t := by
  induction h with
  | nil s => rfl
  | @cons s t u a as h1 _ ih =>
      obtain rfl := hnext s a t h1
      exact ih

/-- The run along a path, where a label determines the step. -/
def Path.run {next : σ → α → σ} (hnext : ∀ s a t, S.Step s a t → t = next s a) {s t : σ}
    {as : List α} (h : Path S s as t) (hs : S.Init s) : Run S.stuttering where
  st := statesAlong next s as
  act n := as[n]?
  init := hs
  step := h.stepsAlong hnext

/-- The state between the two parts of a path. -/
theorem Path.run_append {next : σ → α → σ} (hnext : ∀ s a t, S.Step s a t → t = next s a)
    {s t u : σ} {as bs : List α} (h : Path S s as t) (h' : Path S t bs u) (hs : S.Init s) :
    ((h.append h').run hnext hs).st as.length = t := by
  show ((as ++ bs).take as.length).foldl next s = t
  rw [List.take_left]
  exact h.foldl_eq hnext

theorem Path.run_end {next : σ → α → σ} (hnext : ∀ s a t, S.Step s a t → t = next s a) {s t : σ}
    {as : List α} (h : Path S s as t) (hs : S.Init s) {n : ℕ} (hn : as.length ≤ n) :
    (h.run hnext hs).st n = t :=
  (statesAlong_of_le next s as hn).trans (h.foldl_eq hnext)

/-- A run that ends where nothing is enabled. -/
theorem Run.weaklyFair_of_end {r : Run S} {Enabled : σ → Prop} {Taken : σ → α → Prop} {s : σ}
    {n : ℕ} (hend : ∀ m, n ≤ m → r.st m = s) (hs : ¬ Enabled s) : r.WeaklyFair Enabled Taken := by
  intro k hk
  refine absurd (hk (max k n) (le_max_left k n)) ?_
  rw [hend _ (le_max_right k n)]
  exact hs

theorem Run.stronglyFair_of_end {r : Run S} {Enabled : σ → Prop} {Taken : σ → α → Prop} {s : σ}
    {n : ℕ} (hend : ∀ m, n ≤ m → r.st m = s) (hs : ¬ Enabled s) : r.StronglyFair Enabled Taken := by
  intro k hk
  obtain ⟨j, hj, henabled⟩ := hk (max k n) (le_max_left k n)
  rw [hend j ((le_max_right k n).trans hj)] at henabled
  exact absurd henabled hs

/-! ### Ranks -/

variable {Goal : ℕ → Prop}

/-- A rank that only the goal may raise, and that is lowered again and again before it. -/
theorem eventually_of_rank {ρ : Type} [Preorder ρ] [WellFoundedLT ρ] (rank : ℕ → ρ) {n : ℕ}
    (hle : ∀ m, n ≤ m → ¬ Goal m → rank (m + 1) ≤ rank m)
    (hlt : ∀ m, n ≤ m → ∃ k, m ≤ k ∧ (Goal k ∨ rank (k + 1) < rank k)) : ∃ m, n ≤ m ∧ Goal m := by
  induction hk : rank n using WellFoundedLT.induction generalizing n with
  | _ k ih =>
      obtain ⟨m, hm, hgoal | hdrop⟩ := hlt n (le_refl n)
      · exact ⟨m, hm, hgoal⟩
      · by_contra hnever
        push Not at hnever
        have hrank : ∀ i, n ≤ i → rank i ≤ rank n := by
          intro i hi
          induction hi with
          | refl => exact le_refl _
          | @step i hi ih => exact (hle i hi (hnever i hi)).trans ih
        have hm' : rank (m + 1) < k := by
          rw [← hk]
          exact hdrop.trans_le (hrank m hm)
        obtain ⟨j, hj, hgoal⟩ := ih _ hm' (fun i hi => hle i (by omega))
          (fun i hi => hlt i (by omega)) rfl
        exact hnever j (by omega) hgoal

/-- What grows with every goal, and never shrinks, grows without bound. -/
theorem unbounded_of_growth (size : ℕ → ℕ) (hle : ∀ n, size n ≤ size (n + 1))
    (hlt : ∀ n, ∃ m, n ≤ m ∧ size m < size (m + 1)) (n k : ℕ) : ∃ m, n ≤ m ∧ k ≤ size m := by
  induction k with
  | zero => exact ⟨n, le_refl n, Nat.zero_le _⟩
  | succ k ih =>
      obtain ⟨m, hm, hk⟩ := ih
      obtain ⟨j, hj, hgrow⟩ := hlt m
      have hmono : size m ≤ size j := monotone_nat_of_le_succ hle hj
      exact ⟨j + 1, by omega, by omega⟩

end Transition
