import Mathlib.Logic.Relation

/-! # Labelled transition systems

A `System` is a set of initial states and a step relation labelled by actions.  `Reachable`
collects the states of all finite runs; an invariant is proved of it once
(`Reachable.invariant`), possibly relative to an invariant known already
(`Reachable.invariant_of`).

`System.guarded C` keeps the steps whose source state and label meet `C`: a property of
its reachable states is a property of the runs in which every step meets the condition
(`Reachable.of_guarded` forgets the condition).  `Path` records the labels of a run.

A `Simulation` matches each step of one system by steps of another; what is related to a
reachable state is then reachable too (`Simulation.reachable`). -/

namespace Transition

universe u v w x

/-- Initial states and labelled steps. -/
structure System (σ : Type u) (α : Type v) where
  Init : σ → Prop
  Step : σ → α → σ → Prop

variable {σ : Type u} {α : Type v} {S : System σ α}

/-- The states of the finite runs of `S`. -/
inductive Reachable (S : System σ α) : σ → Prop
  | init {s : σ} : S.Init s → Reachable S s
  | step {s t : σ} {a : α} : Reachable S s → S.Step s a t → Reachable S t

/-- What holds initially and is kept by every step holds of every reachable state. -/
theorem Reachable.invariant {I : σ → Prop} (h0 : ∀ s, S.Init s → I s)
    (hstep : ∀ s a t, I s → S.Step s a t → I t) {s : σ} (h : Reachable S s) : I s := by
  induction h with
  | init hi => exact h0 _ hi
  | step _ hs ih => exact hstep _ _ _ ih hs

/-- An invariant that needs one already known. -/
theorem Reachable.invariant_of {J I : σ → Prop} (hJ : ∀ s, Reachable S s → J s)
    (h0 : ∀ s, S.Init s → I s) (hstep : ∀ s a t, J s → I s → S.Step s a t → I t) {s : σ}
    (h : Reachable S s) : I s := by
  induction h with
  | init hi => exact h0 _ hi
  | step hr hs ih => exact hstep _ _ _ (hJ _ hr) ih hs

/-! ### Runs in which every step meets a condition -/

/-- The steps of `S` that meet `C`. -/
def System.guarded (S : System σ α) (C : σ → α → Prop) : System σ α where
  Init := S.Init
  Step s a t := S.Step s a t ∧ C s a

theorem Reachable.of_guarded {C : σ → α → Prop} {s : σ} (h : Reachable (S.guarded C) s) :
    Reachable S s := by
  induction h with
  | init hi => exact .init hi
  | step _ hs ih => exact .step ih hs.1

/-- Runs that meet one condition meet every condition it implies on their way. -/
theorem Reachable.guarded_of {C D : σ → α → Prop}
    (hD : ∀ s a t, Reachable (S.guarded C) s → (S.guarded C).Step s a t → D s a) {s : σ}
    (h : Reachable (S.guarded C) s) : Reachable (S.guarded D) s := by
  induction h with
  | init hi => exact .init hi
  | step hr hs ih => exact .step ih ⟨hs.1, hD _ _ _ hr hs⟩

/-! ### Paths -/

/-- `Path S s as t`: the labels `as` lead from `s` to `t`. -/
inductive Path (S : System σ α) : σ → List α → σ → Prop
  | nil (s : σ) : Path S s [] s
  | cons {s t u : σ} {a : α} {as : List α} :
      S.Step s a t → Path S t as u → Path S s (a :: as) u

theorem Path.reachable {s t : σ} {as : List α} (h : Path S s as t) (hs : Reachable S s) :
    Reachable S t := by
  induction h with
  | nil => exact hs
  | cons h1 _ ih => exact ih (.step hs h1)

theorem Path.append {s t u : σ} {as bs : List α} (h : Path S s as t) (h' : Path S t bs u) :
    Path S s (as ++ bs) u := by
  induction h with
  | nil => exact h'
  | cons h1 _ ih => exact .cons h1 (ih h')

theorem Path.invariant {I : σ → Prop} {s t : σ} {as : List α} (h : Path S s as t)
    (hstep : ∀ s a t, I s → S.Step s a t → I t) (hs : I s) : I t := by
  induction h with
  | nil => exact hs
  | cons h1 _ ih => exact ih (hstep _ _ _ hs h1)

/-- A path along labels that always meet `C`. -/
theorem Path.guarded_of {C : σ → α → Prop} {s t : σ} {as : List α} (h : Path S s as t)
    (hC : ∀ a ∈ as, ∀ s, C s a) : Path (S.guarded C) s as t := by
  induction h with
  | nil => exact .nil _
  | cons h1 _ ih =>
      refine .cons ⟨h1, hC _ (List.mem_cons_self ..) _⟩ (ih fun a ha => ?_)
      exact hC a (List.mem_cons_of_mem _ ha)

theorem Path.of_guarded {C : σ → α → Prop} {s t : σ} {as : List α}
    (h : Path (S.guarded C) s as t) : Path S s as t := by
  induction h with
  | nil => exact .nil _
  | cons h1 _ ih => exact .cons h1.1 ih

/-! ### Simulation -/

variable {τ : Type w} {β : Type x} {T : System τ β} {R : σ → τ → Prop}

/-- Every step of `S` is matched by a path of `T`, which may be empty. -/
structure Simulation (S : System σ α) (T : System τ β) (R : σ → τ → Prop) : Prop where
  init : ∀ s, S.Init s → ∃ t, T.Init t ∧ R s t
  step : ∀ s a s' t, R s t → S.Step s a s' → ∃ bs t', Path T t bs t' ∧ R s' t'

theorem Simulation.reachable (h : Simulation S T R) {s : σ} (hs : Reachable S s) :
    ∃ t, Reachable T t ∧ R s t := by
  induction hs with
  | init hi =>
      obtain ⟨t, ht, hr⟩ := h.init _ hi
      exact ⟨t, .init ht, hr⟩
  | step _ hs ih =>
      obtain ⟨t, ht, hr⟩ := ih
      obtain ⟨bs, t', hpath, hr'⟩ := h.step _ _ _ _ hr hs
      exact ⟨t', hpath.reachable ht, hr'⟩

end Transition
