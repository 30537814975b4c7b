import Mathlib.Data.List.Basic

/-! # FIFO queues

The abstract queue is a list: `put` adds at the back, `take` and `drain` remove from the
front, and every operation hands out the elements it removes.  `run_conserves` is the
conservation law: what has been handed out, followed by what is still queued, is what was
there at the start followed by everything put since.

An `Impl` is a representation of such a queue whose operations may fail (an assertion, an
access out of range).  It carries the proof that, on the states of its invariant and under
the preconditions of its operations, no operation fails and each one computes the abstract
operation; `Impl.run_spec` lifts this to runs. -/

namespace Fifo

universe u v w

variable {α : Type u}

/-- Operations on a queue. -/
inductive Op (α : Type u) where
  | put (xs : List α)
  | take (n : ℕ)
  | drain

/-- The elements an operation adds. -/
def Op.added : Op α → List α
  | .put xs => xs
  | _ => []

/-- The elements handed out and the queue left behind. -/
def Op.run : Op α → List α → List α × List α
  | .put xs, q => ([], q ++ xs)
  | .take n, q => (q.take n, q.drop n)
  | .drain, q => (q, [])

theorem Op.run_conserves (o : Op α) (q : List α) :
    (o.run q).1 ++ (o.run q).2 = q ++ o.added := by
  cases o with
  | put xs => simp [run, added]
  | take n => simp [run, added]
  | drain => simp [run, added]

/-! ### Implementations -/

/-- A representation `σ` of queues over `α` with operations `ο`. -/
structure Impl (σ : Type v) (ο : Type w) (α : Type u) where
  step : σ → ο → Option (List α × σ)
  Legal : σ → ο → Prop
  Inv : σ → Prop
  contents : σ → List α
  spec : ο → Op α
  step_spec : ∀ s o, Inv s → Legal s o → ∃ out t, step s o = some (out, t) ∧ Inv t ∧
    (spec o).run (contents s) = (out, contents t)

namespace Impl

variable {σ : Type v} {ο : Type w} (I : Impl σ ο α)

/-- Runs a sequence of operations, collecting what they hand out. -/
def run : σ → List ο → Option (List α × σ)
  | s, [] => some ([], s)
  | s, o :: os => do
      let (out, t) ← I.step s o
      let (rest, u) ← run t os
      some (out ++ rest, u)

/-- Every operation of the sequence meets its precondition when its turn comes. -/
def LegalRun : σ → List ο → Prop
  | _, [] => True
  | s, o :: os => I.Legal s o ∧ match I.step s o with
      | none => True
      | some (_, t) => LegalRun t os

instance LegalRun.decidable [∀ s o, Decidable (I.Legal s o)] :
    ∀ (s : σ) (os : List ο), Decidable (I.LegalRun s os)
  | _, [] => isTrue trivial
  | s, o :: os =>
      have : Decidable (match I.step s o with
          | none => True
          | some (_, t) => I.LegalRun t os) :=
        match I.step s o with
        | none => isTrue trivial
        | some (_, t) => decidable t os
      inferInstanceAs (Decidable (_ ∧ _))

/-- Everything a sequence of operations adds. -/
def added (os : List ο) : List α := (os.map (fun o => (I.spec o).added)).flatten

/-- A legal run never fails, keeps the invariant and conserves the elements in order. -/
theorem run_spec : ∀ (os : List ο) (s : σ), I.Inv s → I.LegalRun s os →
    ∃ out t, I.run s os = some (out, t) ∧ I.Inv t ∧
      out ++ I.contents t = I.contents s ++ I.added os
  | [], s, hI, _ => ⟨[], s, rfl, hI, by simp [added]⟩
  | o :: os, s, hI, ⟨hl, hrest⟩ => by
      obtain ⟨out, t, hs, hIt, he⟩ := I.step_spec s o hI hl
      rw [hs] at hrest
      obtain ⟨rest, u, hr, hIu, hc⟩ := run_spec os t hIt hrest
      have hstep := (I.spec o).run_conserves (I.contents s)
      rw [he] at hstep
      refine ⟨out ++ rest, u, by simp [run, hs, hr], hIu, ?_⟩
      calc out ++ rest ++ I.contents u = out ++ (I.contents t ++ I.added os) := by
            rw [List.append_assoc, hc]
        _ = I.contents s ++ ((I.spec o).added ++ I.added os) := by
            rw [← List.append_assoc, hstep, List.append_assoc]
        _ = I.contents s ++ I.added (o :: os) := by simp [added]

end Impl

end Fifo
